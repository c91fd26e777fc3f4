import Mathlib.Data.List.Basic
import Mathlib.Data.List.Induction
import Mathlib.Data.List.Perm.Basic

/-! Python values and the operations on them that can raise: subscripts, membership tests,
iteration, dictionary updates and keyword arguments.
-/

namespace PMKVLab.Library

/-- The class of an exception. Everything but `exit` is a subclass of `Exception`. -/
inductive ExceptionClass
  | exception
  | typeError
  | keyError
  | indexError
  | attributeError
  | valueError
  | unboundLocalError
  | named (name : String)
  /-- `SystemExit`, `KeyboardInterrupt` and the other classes beside `Exception`. -/
  | exit (name : String)
deriving DecidableEq, Repr

/-- An exception object: its class and its message. -/
structure Raised where
  kind : ExceptionClass
  message : String
deriving DecidableEq, Repr

/-- Whether `except Exception` catches it. -/
def Raised.caught (raised : Raised) : Bool :=
  match raised.kind with
  | .exit _ => false
  | _ => true

/-- Python values. Dictionaries keep their insertion order and have string keys; a float is
known by its `repr`, a callable and any other object by its identity.
-/
inductive Py
  | none
  | bool (value : Bool)
  | int (value : Int)
  | float (text : String)
  | str (text : String)
  | list (items : List Py)
  | dict (entries : List (String × Py))
  | function (identity : Nat)
  | object (identity : Nat)

instance : Inhabited Py := ⟨.none⟩

namespace Py

/-- `type(value).__name__`. -/
def typeName : Py → String
  | .none => "NoneType"
  | .bool _ => "bool"
  | .int _ => "int"
  | .float _ => "float"
  | .str _ => "str"
  | .list _ => "list"
  | .dict _ => "dict"
  | .function _ => "function"
  | .object _ => "object"

/-- `callable(value)`. -/
def callable : Py → Bool
  | .function _ => true
  | _ => false

/-- Values of the mutable container types have no hash. -/
def hashable : Py → Bool
  | .list _ | .dict _ => false
  | _ => true

mutual

/-- `left == right`: booleans are integers, and dictionaries ignore their order. -/
def equal : Py → Py → Bool
  | .none, .none => true
  | .bool left, .bool right => left == right
  | .bool left, .int right => (if left then 1 else 0) == right
  | .int left, .bool right => left == (if right then 1 else 0)
  | .int left, .int right => left == right
  | .float left, .float right => left == right
  | .str left, .str right => left == right
  | .list left, .list right => equalItems left right
  | .dict left, .dict right => left.length == right.length && equalEntries left right
  | .function left, .function right => left == right
  | .object left, .object right => left == right
  | _, _ => false

def equalItems : List Py → List Py → Bool
  | [], [] => true
  | left :: lefts, right :: rights => equal left right && equalItems lefts rights
  | _, _ => false

def equalEntries : List (String × Py) → List (String × Py) → Bool
  | [], _ => true
  | (key, value) :: rest, entries =>
      (match entries.lookup key with
        | some other => equal value other
        | Option.none => false) && equalEntries rest entries

end

/-- The position a list subscript names; negative subscripts count from the end. -/
def position (length : Nat) (index : Int) : Option Nat :=
  if 0 ≤ index then some index.toNat
  else if 0 ≤ index + length then some (index + length).toNat
  else Option.none

/-- `container[index]`. -/
def getItem (container index : Py) : Except Raised Py :=
  match container, index with
  | .dict entries, .str key =>
      match entries.lookup key with
      | some value => .ok value
      | Option.none => .error ⟨.keyError, key⟩
  | .dict _, index =>
      if index.hashable then .error ⟨.keyError, index.typeName⟩
      else .error ⟨.typeError, "unhashable type: '" ++ index.typeName ++ "'"⟩
  | .list items, .int index =>
      match (position items.length index).bind (items[·]?) with
      | some value => .ok value
      | Option.none => .error ⟨.indexError, "list index out of range"⟩
  | .list _, index =>
      .error ⟨.typeError, "list indices must be integers or slices, not " ++ index.typeName⟩
  | .str text, .int index =>
      match (position text.length index).bind (text.toList[·]?) with
      | some character => .ok (.str (String.singleton character))
      | Option.none => .error ⟨.indexError, "string index out of range"⟩
  | .str _, _ => .error ⟨.typeError, "string indices must be integers"⟩
  | container, _ =>
      .error ⟨.typeError, "'" ++ container.typeName ++ "' object is not subscriptable"⟩

/-- `item in container`. -/
def contains (container item : Py) : Except Raised Bool :=
  match container, item with
  | .dict entries, .str key => .ok (entries.any (·.1 == key))
  | .dict _, item =>
      if item.hashable then .ok false
      else .error ⟨.typeError, "unhashable type: '" ++ item.typeName ++ "'"⟩
  | .list items, item => .ok (items.any (equal item ·))
  | .str text, .str part => .ok (text.toList.tails.any (part.toList.isPrefixOf ·))
  | .str _, item =>
      .error ⟨.typeError,
        "'in <string>' requires string as left operand, not " ++ item.typeName⟩
  | container, _ =>
      .error ⟨.typeError, "argument of type '" ++ container.typeName ++ "' is not iterable"⟩

/-- What `for item in container` visits. -/
def iterate : Py → Except Raised (List Py)
  | .list items => .ok items
  | .dict entries => .ok (entries.map (.str ·.1))
  | .str text => .ok (text.toList.map (.str <| String.singleton ·))
  | value => .error ⟨.typeError, "'" ++ value.typeName ++ "' object is not iterable"⟩

/-- The entries behind a method that only dictionaries have. -/
def entriesOf (method : String) : Py → Except Raised (List (String × Py))
  | .dict entries => .ok entries
  | value =>
      .error ⟨.attributeError,
        "'" ++ value.typeName ++ "' object has no attribute '" ++ method ++ "'"⟩

/-- The entries behind `**value` in a call. -/
def unpack : Py → Except Raised (List (String × Py))
  | .dict entries => .ok entries
  | value => .error ⟨.typeError, "argument after ** must be a mapping, not " ++ value.typeName⟩

/-- The text behind a value where only a string is accepted. -/
def text (wanted : String) : Py → Except Raised String
  | .str text => .ok text
  | value => .error ⟨.typeError, wanted ++ ", not " ++ value.typeName⟩

end Py

variable {Value : Type}

/-- `entries[key] = value`: an old key keeps its place, a new one goes last. -/
def setItem (key : String) (value : Value) : List (String × Value) → List (String × Value)
  | [] => [(key, value)]
  | (other, old) :: rest =>
      if other = key then (key, value) :: rest else (other, old) :: setItem key value rest

/-- `entries.update(others)`. -/
def updateItems (entries others : List (String × Value)) : List (String × Value) :=
  others.foldl (fun entries entry => setItem entry.1 entry.2 entries) entries

/-- An assigned key is found. -/
theorem lookup_setItem_self (key : String) (value : Value)
    (entries : List (String × Value))
    : (setItem key value entries).lookup key = some value := by
  induction entries with
  | nil => simp [setItem]
  | cons entry rest ih =>
      obtain ⟨other, old⟩ := entry
      rw [setItem]
      split
      · simp
      · next different =>
        rw [List.lookup_cons, beq_false_of_ne (Ne.symm different)]
        exact ih

/-- Other keys are found as before. -/
theorem lookup_setItem_of_ne {key other : String} (different : other ≠ key)
    (value : Value) (entries : List (String × Value))
    : (setItem key value entries).lookup other = entries.lookup other := by
  induction entries with
  | nil => simp [setItem, List.lookup_cons, beq_false_of_ne different]
  | cons entry rest ih =>
      obtain ⟨name, old⟩ := entry
      rw [setItem]
      split
      · next same =>
        subst same
        simp [List.lookup_cons, beq_false_of_ne different]
      · rw [List.lookup_cons, List.lookup_cons, ih]

/-- An update without the key leaves it alone. -/
theorem lookup_updateItems {key : String} {others : List (String × Value)}
    (apart : key ∉ others.map Prod.fst) (entries : List (String × Value))
    : (updateItems entries others).lookup key = entries.lookup key := by
  induction others generalizing entries with
  | nil => rfl
  | cons entry rest ih =>
      rw [List.map_cons, List.mem_cons, not_or] at apart
      exact (ih apart.2 _).trans (lookup_setItem_of_ne apart.1 entry.2 entries)

/-- A new key goes last. -/
theorem setItem_of_notMem {key : String} (value : Value)
    {entries : List (String × Value)} (fresh : key ∉ entries.map Prod.fst)
    : setItem key value entries = entries ++ [(key, value)] := by
  induction entries with
  | nil => rfl
  | cons entry rest ih =>
      rw [List.map_cons, List.mem_cons, not_or] at fresh
      rw [setItem, if_neg (Ne.symm fresh.1), ih fresh.2]
      rfl

/-- Assigning a present key leaves the keys as they are. -/
theorem keys_setItem_of_mem {key : String} (value : Value) {entries : List (String × Value)}
    (present : key ∈ entries.map Prod.fst)
    : (setItem key value entries).map Prod.fst = entries.map Prod.fst := by
  induction entries with
  | nil => cases present
  | cons entry rest ih =>
      obtain ⟨other, first⟩ := entry
      rw [setItem]
      split
      · next same => rw [List.map_cons, List.map_cons, same]
      · next different =>
        have later : key ∈ rest.map Prod.fst :=
          (List.mem_cons.mp present).resolve_left (Ne.symm different)
        rw [List.map_cons, List.map_cons, ih later]

/-- A second assignment of a key replaces the first. -/
theorem setItem_setItem (key : String) (value old : Value) (entries : List (String × Value))
    : setItem key value (setItem key old entries) = setItem key value entries := by
  induction entries with
  | nil => simp [setItem]
  | cons entry rest ih =>
      obtain ⟨other, first⟩ := entry
      by_cases same : other = key
      · simp [setItem, same]
      · simp [setItem, same, ih]

/-- Assigning a key its own value changes nothing. -/
theorem setItem_of_lookup {key : String} {value : Value} {entries : List (String × Value)}
    (present : entries.lookup key = some value)
    : setItem key value entries = entries := by
  induction entries with
  | nil => cases present
  | cons entry rest ih =>
      obtain ⟨other, old⟩ := entry
      by_cases same : other = key
      · subst same
        rw [List.lookup_cons_self] at present
        rw [setItem, if_pos rfl, Option.some.inj present]
      · rw [List.lookup_cons, beq_false_of_ne (Ne.symm same)] at present
        rw [setItem, if_neg same, ih present]

theorem mem_keys_setItem {key name : String} (value : Value) {entries : List (String × Value)}
    (member : name = key ∨ name ∈ entries.map Prod.fst)
    : name ∈ (setItem key value entries).map Prod.fst := by
  induction entries with
  | nil => exact List.mem_singleton.mpr (member.resolve_right List.not_mem_nil)
  | cons entry rest ih =>
      obtain ⟨other, first⟩ := entry
      rw [setItem]
      split
      · next same =>
        subst same
        rcases member with rfl | old
        · exact List.mem_cons_self
        · exact old
      · rcases member with new | old
        · exact List.mem_cons_of_mem _ (ih (.inl new))
        · rcases List.mem_cons.mp old with here | later
          · exact List.mem_cons.mpr (.inl here)
          · exact List.mem_cons_of_mem _ (ih (.inr later))

theorem mem_setItem {key : String} {value : Value} {entries : List (String × Value)}
    {entry : String × Value} (member : entry ∈ setItem key value entries)
    : entry = (key, value) ∨ entry ∈ entries := by
  induction entries with
  | nil => exact .inl (List.mem_singleton.mp member)
  | cons first rest ih =>
      rw [setItem] at member
      split at member
      · exact (List.mem_cons.mp member).imp id (List.mem_cons_of_mem first)
      · rcases List.mem_cons.mp member with rfl | later
        · exact .inr List.mem_cons_self
        · exact (ih later).imp id (List.mem_cons_of_mem first)

/-- An assignment keeps the keys of a dictionary distinct. -/
theorem setItem_nodup (key : String) (value : Value) {entries : List (String × Value)}
    (distinct : (entries.map Prod.fst).Nodup)
    : ((setItem key value entries).map Prod.fst).Nodup := by
  by_cases present : key ∈ entries.map Prod.fst
  · rwa [keys_setItem_of_mem value present]
  · rw [setItem_of_notMem value present, List.map_append]
    refine List.nodup_append.mpr ⟨distinct, by simp, ?_⟩
    intro other member last here same
    have equal : last = key := List.mem_singleton.mp here
    exact present (equal ▸ same ▸ member)

/-- Replacing the value of a key commutes with assigning another key. -/
theorem setItem_comm {key name : String} (different : name ≠ key) (value other : Value)
    {entries : List (String × Value)} (present : name ∈ entries.map Prod.fst)
    : setItem name other (setItem key value entries)
      = setItem key value (setItem name other entries) := by
  induction entries with
  | nil => cases present
  | cons entry rest ih =>
      obtain ⟨first, old⟩ := entry
      by_cases isKey : first = key
      · subst isKey
        simp [setItem, different.symm]
      · by_cases isName : first = name
        · subst isName
          simp [setItem, isKey]
        · have later : name ∈ rest.map Prod.fst :=
            (List.mem_cons.mp present).resolve_left fun here => isName here.symm
          simp [setItem, isKey, isName, ih later]

theorem updateItems_append (entries first second : List (String × Value))
    : updateItems entries (first ++ second) = updateItems (updateItems entries first) second :=
  List.foldl_append

theorem mem_keys_updateItems {name : String} {entries others : List (String × Value)}
    (member : name ∈ entries.map Prod.fst ∨ name ∈ others.map Prod.fst)
    : name ∈ (updateItems entries others).map Prod.fst := by
  induction others generalizing entries with
  | nil => exact member.resolve_right List.not_mem_nil
  | cons entry rest ih =>
      refine ih ?_
      rcases member with old | new
      · exact .inl (mem_keys_setItem entry.2 (.inr old))
      · rcases List.mem_cons.mp new with here | later
        · exact .inl (mem_keys_setItem entry.2 (.inl here))
        · exact .inr later

/-- An assignment before an update of present keys is seen or overwritten after it. -/
theorem setItem_updateItems {key : String} (value : Value) {others : List (String × Value)}
    {entries : List (String × Value)}
    (present : ∀ name ∈ others.map Prod.fst, name ∈ entries.map Prod.fst)
    : setItem key value (updateItems (setItem key value entries) others)
      = setItem key value (updateItems entries others) := by
  induction others generalizing entries with
  | nil => exact setItem_setItem key value value entries
  | cons entry rest ih =>
      have here := present entry.1 List.mem_cons_self
      have kept : ∀ name ∈ rest.map Prod.fst,
          name ∈ (setItem entry.1 entry.2 entries).map Prod.fst :=
        fun name member => mem_keys_setItem _ (.inr (present name (List.mem_cons_of_mem _ member)))
      by_cases same : entry.1 = key
      · have replaced : setItem entry.1 entry.2 (setItem key value entries)
            = setItem entry.1 entry.2 entries := by
          rw [same]
          exact setItem_setItem key entry.2 value entries
        exact congrArg (fun first => setItem key value (updateItems first rest)) replaced
      · have swapped := setItem_comm same value entry.2 here
        refine (congrArg (fun first => setItem key value (updateItems first rest)) swapped).trans ?_
        exact ih kept

/-- Updating a second time changes nothing, not even the order: by induction on the last
entry, whose assignment may be moved past the earlier ones.
-/
theorem updateItems_updateItems (entries others : List (String × Value))
    : updateItems (updateItems entries others) others = updateItems entries others := by
  induction others using List.reverseRecOn with
  | nil => rfl
  | append_singleton front last ih =>
      rw [updateItems_append, updateItems_append]
      have present : ∀ name ∈ front.map Prod.fst,
          name ∈ (updateItems entries front).map Prod.fst :=
        fun name member => mem_keys_updateItems (.inr member)
      refine (setItem_updateItems last.2 present).trans ?_
      rw [ih]
      rfl

/-- The entries of a table with one row per name are found under their names. -/
theorem lookup_map_of_mem {Row : Type} (name : Row → String) (value : Row → Value)
    (distinct : Function.Injective name) {rows : List Row} {row : Row} (member : row ∈ rows)
    : (rows.map fun row => (name row, value row)).lookup (name row) = some (value row) := by
  induction rows with
  | nil => cases member
  | cons first rest ih =>
      by_cases same : row = first
      · subst same
        simp
      · have later : row ∈ rest := (List.mem_cons.mp member).resolve_left same
        have other : (name row == name first) = false := by
          simpa using fun equal => same (distinct equal)
        simp only [List.map_cons, List.lookup_cons, other]
        exact ih later

/-- A key that heads some entry is found. -/
theorem exists_lookup_of_mem {entries : List (String × Value)} {key : String}
    (member : key ∈ entries.map Prod.fst)
    : ∃ value, entries.lookup key = some value := by
  cases found : entries.lookup key with
  | some value => exact ⟨value, rfl⟩
  | none =>
      obtain ⟨entry, inside, rfl⟩ := List.mem_map.mp member
      exact absurd (List.lookup_eq_none_iff.mp found entry inside) (by simp)

/-- After an update the last value of a key is found, or else the one before the update. -/
theorem lookup_updateItems_eq (key : String) (entries others : List (String × Value))
    : (updateItems entries others).lookup key
      = (others.reverse.lookup key).or (entries.lookup key) := by
  induction others generalizing entries with
  | nil => rfl
  | cons entry rest ih =>
      obtain ⟨name, value⟩ := entry
      have first : (setItem name value entries).lookup key
          = ([(name, value)].lookup key).or (entries.lookup key) := by
        by_cases same : key = name
        · subst same
          rw [lookup_setItem_self, List.lookup_cons_self, Option.some_or]
        · rw [lookup_setItem_of_ne same, List.lookup_cons, beq_false_of_ne same]
          rfl
      rw [List.reverse_cons, List.lookup_append, Option.or_assoc, ← first]
      exact ih (setItem name value entries)

theorem updateItems_nodup (others : List (String × Value)) {entries : List (String × Value)}
    (distinct : (entries.map Prod.fst).Nodup)
    : ((updateItems entries others).map Prod.fst).Nodup := by
  induction others generalizing entries with
  | nil => exact distinct
  | cons entry rest ih => exact ih (setItem_nodup entry.1 entry.2 distinct)

/-- In a dictionary every entry is found under its key. -/
theorem lookup_of_mem {Key : Type} [DecidableEq Key] {entries : List (Key × Value)}
    (distinct : (entries.map Prod.fst).Nodup) {entry : Key × Value} (member : entry ∈ entries)
    : entries.lookup entry.1 = some entry.2 := by
  induction entries with
  | nil => cases member
  | cons first rest ih =>
      obtain ⟨apart, distinct⟩ := List.nodup_cons.mp distinct
      rcases List.mem_cons.mp member with rfl | later
      · exact List.lookup_cons_self
      · have other : entry.1 ≠ first.1 := fun same => apart (same ▸ List.mem_map_of_mem later)
        rw [List.lookup_cons, beq_false_of_ne other]
        exact ih distinct later

theorem lookup_isSome_iff {entries : List (String × Value)} {key : String}
    : (entries.lookup key).isSome ↔ key ∈ entries.map Prod.fst := by
  constructor
  · intro found
    by_contra absent
    have none : entries.lookup key = none := by
      refine List.lookup_eq_none_iff.mpr fun entry inside => ?_
      have different : entry.1 ≠ key := fun same => absent (same ▸ List.mem_map_of_mem inside)
      simpa using Ne.symm different
    rw [none] at found
    cases found
  · intro member
    obtain ⟨value, found⟩ := exists_lookup_of_mem member
    rw [found]
    rfl

-----------------------------------------------------------------------------------------
-- Keyword arguments
-----------------------------------------------------------------------------------------

/-- The names of missing arguments as `TypeError` lists them. -/
def quotedNames : List String → String
  | [] => ""
  | [name] => "'" ++ name ++ "'"
  | [first, second] => "'" ++ first ++ "' and '" ++ second ++ "'"
  | names => ", ".intercalate (names.dropLast.map fun name => "'" ++ name ++ "'")
      ++ ", and '" ++ names.getLastD "" ++ "'"

/-- Bind the named arguments of a call to parameters without defaults: an argument that is
no parameter and a parameter without argument are both a `TypeError`.
-/
def checkKeywords (callee : String) (parameters arguments : List String)
    : Except Raised Unit :=
  match arguments.find? (· ∉ parameters) with
  | some argument =>
      .error ⟨.typeError, callee ++ " got an unexpected keyword argument '" ++ argument ++ "'"⟩
  | none =>
      match parameters.filter (· ∉ arguments) with
      | [] => .ok ()
      | [parameter] =>
          .error ⟨.typeError,
            callee ++ " missing 1 required positional argument: '" ++ parameter ++ "'"⟩
      | missing =>
          .error ⟨.typeError, callee ++ " missing " ++ toString missing.length
            ++ " required positional arguments: " ++ quotedNames missing⟩

/-- A call that names each parameter once passes, in whatever order it names them. -/
theorem checkKeywords_of_perm (callee : String) {parameters arguments : List String}
    (named : arguments.Perm parameters)
    : checkKeywords callee parameters arguments = .ok () := by
  have expected : arguments.find? (· ∉ parameters) = none := by
    rw [List.find?_eq_none]
    intro argument member
    simpa using named.mem_iff.mp member
  have complete : parameters.filter (· ∉ arguments) = [] := by
    rw [List.filter_eq_nil_iff]
    intro parameter member
    simpa using named.mem_iff.mpr member
  unfold checkKeywords
  rw [expected, complete]

/-- What the interpreter supplies beside these operations: reading numbers, evaluating an
expression in the scope of a caller, and printing values. `Objects` is what of a scope an
expression may change.
-/
structure Interpreter (Scope Objects : Type) where
  /-- `float(text)`, as the `repr` of the float. -/
  toFloat : String → Option String
  /-- `eval(text)`: the value or the exception, and the objects afterwards. -/
  eval : String → Scope → Except Raised Py × Objects
  str : Py → String
  repr : Py → String
  /-- `int(value)`. -/
  toInt : Py → Except Raised Int
  /-- The characters that `\d` matches. -/
  decimal : Char → Bool

/-- `float(value)` of a text; values that are neither text nor number are a `TypeError`. -/
def Interpreter.float {Scope Objects : Type} (interpreter : Interpreter Scope Objects)
    : Py → Except Raised Py
  | .str text =>
      match interpreter.toFloat text with
      | some number => .ok (.float number)
      | none =>
          .error ⟨.valueError,
            "could not convert string to float: " ++ interpreter.repr (.str text)⟩
  | .float number => .ok (.float number)
  | .int value => .ok (.float (toString value ++ ".0"))
  | .bool value => .ok (.float (if value then "1.0" else "0.0"))
  | value =>
      .error ⟨.typeError,
        "float() argument must be a string or a number, not '" ++ value.typeName ++ "'"⟩

end PMKVLab.Library
