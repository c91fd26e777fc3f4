import PMKVLab.Grading.ParseResult

/-! What a report says. The dictionary of a report has one verdict for each name of a test
case, that of the last case with the name.
-/

namespace PMKVLab.Grading

open PMKVLab.Library

-----------------------------------------------------------------------------------------
-- Test cases
-----------------------------------------------------------------------------------------

/-- The names are there, and the message of a failure. -/
def Case.Readable (case : Case) : Prop :=
  (∃ name, case.testName = .ok name) ∧ ∃ text, case.message = .ok text

/-- The last of some test cases with a name has this message. -/
def Decided (cases : List Case) (name text : String) : Prop :=
  ∃ before case after, cases = before ++ case :: after
    ∧ case.testName = .ok name ∧ case.message = .ok text
    ∧ ∀ later ∈ after, later.testName ≠ .ok name

theorem not_decided_nil {name text : String} : ¬ Decided [] name text := by
  rintro ⟨before, case, after, split, -⟩
  simp at split

/-- One more case decides its own name and no other. -/
theorem decided_concat {cases : List Case} {case : Case} {own message : String}
    (named : case.testName = .ok own) (told : case.message = .ok message) {name text : String}
    : Decided (cases ++ [case]) name text
      ↔ if own = name then message = text else Decided cases name text := by
  constructor
  · rintro ⟨before, last, after, split, lastNamed, lastTold, others⟩
    rcases List.eq_nil_or_concat' after with rfl | ⟨inner, final, rfl⟩
    · obtain ⟨-, same⟩ := List.append_inj' split rfl
      cases same
      rw [named] at lastNamed
      rw [told] at lastTold
      rw [if_pos (Except.ok.inj lastNamed)]
      exact Except.ok.inj lastTold
    · rw [← List.cons_append, ← List.append_assoc] at split
      obtain ⟨rfl, same⟩ := List.append_inj' split rfl
      cases same
      have apart : own ≠ name := fun equal =>
        others case (List.mem_append_right _ List.mem_cons_self) (equal ▸ named)
      rw [if_neg apart]
      exact ⟨before, last, inner, rfl, lastNamed, lastTold,
        fun later member => others later (List.mem_append_left _ member)⟩
  · split
    · next same =>
      rintro rfl
      exact ⟨cases, case, [], rfl, same ▸ named, told,
        fun _ member => absurd member List.not_mem_nil⟩
    · next apart =>
      rintro ⟨before, last, after, rfl, lastNamed, lastTold, others⟩
      refine ⟨before, last, after ++ [case], by simp, lastNamed, lastTold, ?_⟩
      intro later member
      rcases List.mem_append.mp member with inside | final
      · exact others later inside
      · rw [List.mem_singleton.mp final, named]
        exact fun equal => apart (Except.ok.inj equal)

/-- A verdict of a readable case is added to the dictionary. -/
theorem addVerdict_of_readable {case : Case} {name text : String}
    (named : case.testName = .ok name) (told : case.message = .ok text)
    (ret : List (String × String))
    : addVerdict ret case = .ok (setItem name text ret) := by
  rw [addVerdict, named, told]
  rfl

/-- The loops over readable cases end with the decided names, by induction from the last case
back.
-/
theorem foldlM_addVerdict {cases : List Case} (readable : ∀ case ∈ cases, case.Readable)
    : ∃ ret, cases.foldlM addVerdict [] = .ok ret ∧ (ret.map Prod.fst).Nodup
      ∧ ∀ name text, ret.lookup name = some text ↔ Decided cases name text := by
  induction cases using List.reverseRecOn with
  | nil =>
      refine ⟨[], rfl, List.nodup_nil, fun name text => ⟨fun found => ?_, fun decided => ?_⟩⟩
      · cases found
      · exact absurd decided not_decided_nil
  | append_singleton cases case ih =>
      obtain ⟨ret, computed, distinct, decided⟩ :=
        ih fun other member => readable other (List.mem_append_left _ member)
      obtain ⟨⟨own, named⟩, message, told⟩ :=
        readable case (List.mem_append_right _ List.mem_cons_self)
      refine ⟨setItem own message ret, ?_, setItem_nodup own message distinct, ?_⟩
      · rw [List.foldlM_append, computed, except_ok_bind, List.foldlM_cons,
          addVerdict_of_readable named told]
        rfl
      · intro name text
        rw [decided_concat named told]
        split
        · next same => rw [same, lookup_setItem_self, Option.some_inj]
        · next apart => rw [lookup_setItem_of_ne (Ne.symm apart), decided name text]

/-- The loops raise unless every case is readable, by induction on the cases. -/
theorem readable_of_foldlM {cases : List Case} {start ret : List (String × String)}
    (computed : cases.foldlM addVerdict start = .ok ret)
    : ∀ case ∈ cases, case.Readable := by
  induction cases generalizing start with
  | nil => exact fun _ member => absurd member List.not_mem_nil
  | cons case rest ih =>
      rw [List.foldlM_cons] at computed
      obtain ⟨next, added, others⟩ := except_bind_eq_ok.mp computed
      obtain ⟨name, named, after⟩ := except_bind_eq_ok.mp added
      obtain ⟨text, told, _⟩ := except_bind_eq_ok.mp after
      exact List.forall_mem_cons.mpr ⟨⟨⟨name, named⟩, text, told⟩, ih others⟩

-----------------------------------------------------------------------------------------
-- Reports
-----------------------------------------------------------------------------------------

namespace Report

/-- The test cases of a report; a file that does not parse has none. -/
def cases (report : Report) : List Case :=
  match report with
  | none => []
  | some root => casesOf root

/-- The loops get through the report. -/
def Readable (report : Report) : Prop := ∀ case ∈ report.cases, case.Readable

/-- The verdict of the report on a name. -/
def Decides (report : Report) (name text : String) : Prop := Decided report.cases name text

theorem ret_eq (report : Report) : report.ret = report.cases.foldlM addVerdict [] := by
  cases report with
  | none => rfl
  | some root => rfl

/-- The dictionary of a readable report has its verdicts. -/
theorem Readable.ret {report : Report} (readable : report.Readable)
    : ∃ ret, report.ret = .ok ret
      ∧ ∀ name text, (name, text) ∈ ret ↔ report.Decides name text := by
  obtain ⟨ret, computed, distinct, decided⟩ := foldlM_addVerdict readable
  refine ⟨ret, report.ret_eq.trans computed, fun name text => ?_⟩
  rw [Decides, ← decided]
  constructor
  · exact fun member => lookup_of_mem distinct member
  · intro found
    obtain ⟨before, after, split, -⟩ := List.lookup_eq_some_iff.mp found
    rw [split]
    exact List.mem_append_right _ List.mem_cons_self

theorem readable_of_ret {report : Report} {ret : List (String × String)}
    (computed : report.ret = .ok ret)
    : report.Readable :=
  readable_of_foldlM (report.ret_eq.symm.trans computed)

theorem mem_ret {report : Report} {ret : List (String × String)} (computed : report.ret = .ok ret)
    {name text : String}
    : (name, text) ∈ ret ↔ report.Decides name text := by
  obtain ⟨same, found, decides⟩ := (readable_of_ret computed).ret
  cases found.symm.trans computed
  exact decides name text

end Report

-----------------------------------------------------------------------------------------
-- Directories
-----------------------------------------------------------------------------------------

namespace Directory

variable (directory : Directory)

theorem report_of_mem {file : String × Report} (member : file ∈ directory.files)
    : directory.report file.1 = file.2 := by
  rw [report, lookup_of_mem directory.distinct member]
  rfl

/-- Under each name there is a file. -/
theorem mem_files_of_name {name : String} (member : name ∈ directory.names)
    : (name, directory.report name) ∈ directory.files := by
  obtain ⟨file, inside, rfl⟩ := List.mem_map.mp member
  rwa [directory.report_of_mem inside]

/-- A file with a verdict is one of the directory. -/
theorem name_of_decides {file name text : String}
    (decides : (directory.report file).Decides name text)
    : file ∈ directory.names := by
  by_contra absent
  have unknown : directory.files.lookup file = none :=
    Option.eq_none_iff_forall_ne_some.mpr fun report found =>
      absent (lookup_isSome_iff.mp (Option.isSome_of_eq_some found))
  rw [Directory.report, unknown] at decides
  exact not_decided_nil decides

theorem report_put_self (name : String) (report : Report)
    : (directory.put name report).report name = report := by
  rw [Directory.report, put, lookup_setItem_self]
  rfl

theorem report_put_of_ne {name other : String} (apart : other ≠ name) (report : Report)
    : (directory.put name report).report other = directory.report other := by
  rw [Directory.report, put, lookup_setItem_of_ne apart]
  rfl

theorem mem_names_put {name other : String} {report : Report}
    : other ∈ (directory.put name report).names ↔ other = name ∨ other ∈ directory.names := by
  constructor
  · intro member
    obtain ⟨file, inside, rfl⟩ := List.mem_map.mp member
    rcases mem_setItem inside with rfl | old
    · exact .inl rfl
    · exact .inr (List.mem_map_of_mem old)
  · exact fun found => mem_keys_setItem report found

theorem put_put (name : String) (first second : Report)
    : (directory.put name first).put name second = directory.put name second := by
  simp only [put, setItem_setItem]

end Directory

/-- Some readable report of a directory has a verdict whose name leads to a place. -/
def Verdict (platform : Platform) (directory : Directory) (place : Place) (text : String)
    : Prop :=
  ∃ file ∈ directory.files, file.2.Readable
    ∧ ∃ name, file.2.Decides name text ∧ platform.place name = some place

end PMKVLab.Grading
