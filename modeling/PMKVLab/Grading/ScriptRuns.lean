import PMKVLab.Grading.Reports

/-! What a run of the script leaves. A report either lets the script go on or stops it, and
which of the two does not depend on any order; the orders decide what is written before.
-/

namespace PMKVLab.Grading

open PMKVLab.Library

-----------------------------------------------------------------------------------------
-- Writes
-----------------------------------------------------------------------------------------

section Writes

variable (platform : Platform)

/-- The disk after writes, in their order. -/
def Disk.writeAll (disk : Disk) (writes : List (Place × String)) : Disk :=
  writes.foldl (fun disk write => disk.write platform write.1 write.2) disk

/-- The writes to result files. -/
def resultWrites (writes : List (Place × String)) : List (String × String) :=
  writes.filterMap fun
    | (.result file, text) => some (file, text)
    | (.report _, _) => none

/-- The writes that entries of a dictionary stand for. -/
def placed (entries : List (String × String)) : List (Place × String) :=
  entries.filterMap fun entry => (platform.place entry.1).map fun place => (place, entry.2)

variable {platform} (disk : Disk)

theorem Disk.writeAll_append (earlier later : List (Place × String))
    : disk.writeAll platform (earlier ++ later)
      = (disk.writeAll platform earlier).writeAll platform later :=
  List.foldl_append

/-- A text that is written at once replaces the one before. -/
theorem Disk.write_write (place : Place) (first second : String)
    : (disk.write platform place first).write platform place second
      = disk.write platform place second := by
  cases place with
  | result file => simp [Disk.write, Function.update_idem]
  | report file => simp [Disk.write, Directory.put_put]

theorem mem_resultWrites {writes : List (Place × String)} {file text : String}
    : (file, text) ∈ resultWrites writes ↔ (.result file, text) ∈ writes := by
  simp only [resultWrites, List.mem_filterMap]
  constructor
  · rintro ⟨⟨place, other⟩, member, same⟩
    cases place with
    | result => cases same; exact member
    | report => cases same
  · exact fun member => ⟨_, member, rfl⟩

/-- Result files see the writes to them, by induction on the writes. -/
theorem Disk.results_writeAll (writes : List (Place × String))
    : (disk.writeAll platform writes).results
      = overwritten (resultWrites writes) disk.results := by
  induction writes generalizing disk with
  | nil => rfl
  | cons write rest ih =>
      obtain ⟨place, text⟩ := write
      refine (ih (disk.write platform place text)).trans ?_
      cases place with
      | result file => rfl
      | report file => rfl

/-- A report that no write names stays as it is, by induction on the writes. -/
theorem Disk.report_writeAll {writes : List (Place × String)} {name : String}
    (other : ∀ text, (.report name, text) ∉ writes)
    : (disk.writeAll platform writes).xml.report name = disk.xml.report name := by
  induction writes generalizing disk with
  | nil => rfl
  | cons write rest ih =>
      obtain ⟨place, text⟩ := write
      have later := ih (disk.write platform place text)
        fun text member => other text (List.mem_cons_of_mem _ member)
      refine later.trans ?_
      cases place with
      | result file => rfl
      | report file =>
          have apart : name ≠ file := fun same => other text (same ▸ List.mem_cons_self)
          exact disk.xml.report_put_of_ne apart _

/-- The files of the directory are the old ones and those written to. -/
theorem Disk.mem_names_writeAll {writes : List (Place × String)} {name : String}
    : name ∈ (disk.writeAll platform writes).xml.names
      ↔ name ∈ disk.xml.names ∨ ∃ text, (.report name, text) ∈ writes := by
  induction writes generalizing disk with
  | nil => simp [Disk.writeAll]
  | cons write rest ih =>
      obtain ⟨place, text⟩ := write
      refine (ih (disk.write platform place text)).trans ?_
      cases place with
      | result file => simp [Disk.write]
      | report file =>
          simp only [Disk.write, Directory.mem_names_put, List.mem_cons, Prod.mk.injEq,
            Place.report.injEq, exists_or, exists_and_left, exists_eq, and_true]
          rw [or_comm (a := name = file), or_assoc]

theorem mem_placed {entries : List (String × String)} {place : Place} {text : String}
    : (place, text) ∈ placed platform entries
      ↔ ∃ name, (name, text) ∈ entries ∧ platform.place name = some place := by
  simp only [placed, List.mem_filterMap, Option.map_eq_some_iff, Prod.mk.injEq]
  constructor
  · rintro ⟨⟨name, old⟩, member, found, leads, rfl, rfl⟩
    exact ⟨name, member, leads⟩
  · rintro ⟨name, member, leads⟩
    exact ⟨(name, text), member, place, leads, rfl, rfl⟩

theorem placed_append (earlier later : List (String × String))
    : placed platform (earlier ++ later) = placed platform earlier ++ placed platform later :=
  List.filterMap_append

end Writes

-----------------------------------------------------------------------------------------
-- One file
-----------------------------------------------------------------------------------------

section Files

variable (platform : Platform)

/-- An entry that stops the script: its file cannot be opened, or its text not written. -/
def Blocked (entry : String × String) : Prop :=
  platform.place entry.1 = none ∨ ¬ Encodes entry.2

instance (entry : String × String) : Decidable (Blocked platform entry) :=
  inferInstanceAs (Decidable (_ ∨ _))

/-- The script gets through a report: it is readable, and its verdicts can be written. -/
structure Report.Complete (report : Report) : Prop where
  readable : report.Readable
  free : ∀ name text, report.Decides name text → ¬ Blocked platform (name, text)

/-- The entries that a report leads to; none when it stops the script before any. -/
def Report.entries (report : Report) : List (String × String) :=
  report.ret.toOption.getD []

variable {platform}

theorem Report.entries_of_ret {report : Report} {ret : List (String × String)}
    (computed : report.ret = .ok ret)
    : report.entries = ret := by
  rw [Report.entries, computed]
  rfl

theorem Report.mem_entries {report : Report} {name text : String}
    : (name, text) ∈ report.entries ↔ report.Readable ∧ report.Decides name text := by
  cases computed : report.ret with
  | error raised =>
      rw [entries, computed]
      constructor
      · intro member
        cases member
      · rintro ⟨readable, _⟩
        obtain ⟨ret, found, _⟩ := readable.ret
        cases computed.symm.trans found
  | ok ret =>
      rw [entries_of_ret computed, mem_ret computed]
      exact ⟨fun decides => ⟨readable_of_ret computed, decides⟩, And.right⟩

variable (disk : Disk)

/-- A text that can be written replaces the contents of its file. -/
theorem writeResult_run {entry : String × String} (free : ¬ Blocked platform entry)
    : (writeResult platform entry.1 entry.2).run disk
      = (.ok (), disk.writeAll platform (placed platform [entry])) := by
  obtain ⟨place, leads⟩ := Option.ne_none_iff_exists'.mp (not_or.mp free).1
  have encodes : Encodes entry.2 := not_not.mp (not_or.mp free).2
  have written : (disk.write platform place "").write platform place entry.2
      = disk.write platform place entry.2 :=
    disk.write_write place "" entry.2
  unfold writeResult
  simp only [leads, if_pos encodes, placed, List.filterMap_cons, Option.map_some,
    List.filterMap_nil]
  exact congrArg (Prod.mk _) written

/-- A text that cannot be written leaves its file empty, if that can be opened. -/
theorem writeResult_blocked {entry : String × String} (blocked : Blocked platform entry)
    : ∃ raised, (writeResult platform entry.1 entry.2).run disk
      = (.error raised, disk.writeAll platform (placed platform [(entry.1, "")])) := by
  unfold writeResult
  cases leads : platform.place entry.1 with
  | none =>
      exact ⟨⟨.named "IOError", entry.1⟩, by simp only [placed, List.filterMap_cons, leads]; rfl⟩
  | some place =>
      have text : ¬ Encodes entry.2 := blocked.resolve_left (by simp [leads])
      refine ⟨⟨.named "UnicodeEncodeError", entry.2⟩, ?_⟩
      simp only [if_neg text, placed, List.filterMap_cons, leads, Option.map_some,
        List.filterMap_nil]
      rfl

/-- Entries that can all be written are written in their order, by induction on them. -/
theorem writes_run {entries : List (String × String)}
    (free : ∀ entry ∈ entries, ¬ Blocked platform entry)
    : (forM entries fun entry => writeResult platform entry.1 entry.2 : Script PUnit).run disk
      = (.ok (), disk.writeAll platform (placed platform entries)) := by
  induction entries generalizing disk with
  | nil => rfl
  | cons entry rest ih =>
      rw [List.forM_cons, Program.run_bind_of_ok
        (writeResult_run disk (free entry List.mem_cons_self)),
        ih _ (fun other member => free other (List.mem_cons_of_mem entry member)),
        ← Disk.writeAll_append, ← placed_append]
      rfl

/-- The entries before the first blocked one are written, and that empties its own file. -/
theorem writes_blocked {earlier : List (String × String)} {entry : String × String}
    (free : ∀ entry ∈ earlier, ¬ Blocked platform entry) (blocked : Blocked platform entry)
    (later : List (String × String))
    : ∃ raised,
      (forM (earlier ++ entry :: later) fun entry => writeResult platform entry.1 entry.2
        : Script PUnit).run disk
      = (.error raised,
          disk.writeAll platform (placed platform (earlier ++ [(entry.1, "")]))) := by
  obtain ⟨raised, stopped⟩ := writeResult_blocked
    (disk.writeAll platform (placed platform earlier)) blocked
  refine ⟨raised, ?_⟩
  rw [List.forM_append, Program.run_bind_of_ok (writes_run disk free), List.forM_cons,
    Program.run_bind, stopped, placed_append, Disk.writeAll_append]

variable {order : DictOrder} {name : String}

/-- The parsing of a file, from what is found in it. -/
theorem parseTestResult_eq {ret : List (String × String)}
    (computed : (disk.xml.report name).ret = .ok ret)
    : (parseTestResult platform order name).run disk
      = (forM (order.iteritems ret) fun entry => writeResult platform entry.1 entry.2
          : Script PUnit).run disk := by
  unfold parseTestResult
  rw [Program.run_bind_of_ok (Program.run_gets disk _), computed,
    Program.run_bind_of_ok (Program.run_lift disk _)]
  rfl

theorem parseTestResult_error {raised : Raised}
    (failed : (disk.xml.report name).ret = .error raised)
    : (parseTestResult platform order name).run disk = (.error raised, disk) := by
  unfold parseTestResult
  rw [Program.run_bind_of_ok (Program.run_gets disk _), failed]
  rfl

/-- A complete report is written entry by entry. -/
theorem parseTestResult_run (complete : (disk.xml.report name).Complete platform)
    : (parseTestResult platform order name).run disk
      = (.ok (), disk.writeAll platform
          (placed platform (order.iteritems (disk.xml.report name).entries))) := by
  obtain ⟨ret, computed, decides⟩ := complete.readable.ret
  rw [parseTestResult_eq disk computed, Report.entries_of_ret computed]
  refine writes_run disk fun entry member => ?_
  exact complete.free entry.1 entry.2
    ((decides _ _).mp ((order.perm ret).mem_iff.mp member))

/-- A report whose entries are visited up to a blocked one. -/
theorem parseTestResult_blocked {ret earlier later : List (String × String)}
    {entry : String × String} (computed : (disk.xml.report name).ret = .ok ret)
    (visited : order.iteritems ret = earlier ++ entry :: later)
    (free : ∀ entry ∈ earlier, ¬ Blocked platform entry) (blocked : Blocked platform entry)
    : ∃ raised, (parseTestResult platform order name).run disk
      = (.error raised,
          disk.writeAll platform (placed platform (earlier ++ [(entry.1, "")]))) := by
  obtain ⟨raised, run⟩ := writes_blocked disk free blocked later
  exact ⟨raised, by rw [parseTestResult_eq disk computed, visited, run]⟩

end Files

-----------------------------------------------------------------------------------------
-- The first pass
-----------------------------------------------------------------------------------------

section Passes

variable (platform : Platform) (directory : Directory)

/-- The script gets through every report of a directory. -/
def Complete : Prop := ∀ file ∈ directory.files, file.2.Complete platform

/-- No name in a report leads to a file of the directory. -/
def Separate : Prop :=
  ∀ name text, Verdict platform directory (.report name) text → name ∉ directory.names

/-- The writes of the first pass over some files. -/
def passWrites (order : DictOrder) (listing : List String) : List (Place × String) :=
  listing.flatMap fun name => placed platform (order.iteritems (directory.report name).entries)

/-- The files that were there at the start are as they were. -/
def Agrees (disk : Disk) : Prop :=
  ∀ name ∈ directory.names, disk.xml.report name = directory.report name

variable {platform directory} (order : DictOrder)

theorem Complete.of_name (complete : Complete platform directory) {name : String}
    (member : name ∈ directory.names)
    : (directory.report name).Complete platform :=
  complete _ (directory.mem_files_of_name member)

/-- The first pass writes verdicts of the reports. -/
theorem verdict_of_passWrites {listing : List String} (listed : listing ⊆ directory.names)
    {place : Place} {text : String}
    (member : (place, text) ∈ passWrites platform directory order listing)
    : Verdict platform directory place text := by
  obtain ⟨file, inside, written⟩ := List.mem_flatMap.mp member
  obtain ⟨name, entry, leads⟩ := mem_placed.mp written
  rw [(order.perm _).mem_iff] at entry
  obtain ⟨readable, decides⟩ := Report.mem_entries.mp entry
  exact ⟨_, directory.mem_files_of_name (listed inside), readable, name, decides, leads⟩

/-- The first pass over complete reports that do not write over each other, by induction on
the files.
-/
theorem pass_run (complete : Complete platform directory)
    (separate : Separate platform directory) {listing : List String}
    (listed : listing ⊆ directory.names) {disk : Disk} (agrees : Agrees directory disk)
    : (forM listing fun name => parseTestResult platform order name : Script PUnit).run disk
      = (.ok (), disk.writeAll platform (passWrites platform directory order listing)) := by
  induction listing generalizing disk with
  | nil => rfl
  | cons name rest ih =>
      have member : name ∈ directory.names := listed List.mem_cons_self
      have same := agrees name member
      have report : (disk.xml.report name).Complete platform := same ▸ complete.of_name member
      have first : passWrites platform directory order [name]
          = placed platform (order.iteritems (disk.xml.report name).entries) := by
        rw [same]
        exact List.flatMap_singleton _ _
      have kept : Agrees directory
          (disk.writeAll platform (passWrites platform directory order [name])) := by
        intro other inside
        rw [Disk.report_writeAll disk fun text written => ?_, agrees other inside]
        have verdict := verdict_of_passWrites order
          (List.cons_subset.mpr ⟨member, List.nil_subset _⟩) written
        exact separate other text verdict inside
      rw [List.forM_cons, Program.run_bind_of_ok (parseTestResult_run disk report), ← first,
        ih (fun _ inside => listed (List.mem_cons_of_mem name inside)) kept,
        ← Disk.writeAll_append]
      exact congrArg (fun writes => (Except.ok (), disk.writeAll platform writes))
        List.flatMap_append.symm

/-- With every file listed, the first pass writes all verdicts. -/
theorem mem_passWrites {listing : List String} (listed : listing.Perm directory.names)
    {place : Place} {text : String}
    : (place, text) ∈ passWrites platform directory order listing
      ↔ Verdict platform directory place text := by
  constructor
  · exact verdict_of_passWrites order listed.subset
  · rintro ⟨file, member, readable, name, decides, leads⟩
    have report := directory.report_of_mem member
    refine List.mem_flatMap.mpr ⟨file.1, listed.mem_iff.mpr (List.mem_map_of_mem member), ?_⟩
    refine mem_placed.mpr ⟨name, (order.perm _).mem_iff.mpr ?_, leads⟩
    rw [report]
    exact Report.mem_entries.mpr ⟨readable, decides⟩

/-- What the first pass leaves in a result file: a verdict of the reports, or what was there
when they have none.
-/
theorem pass_leaves {listing : List String} (listed : listing.Perm directory.names)
    (file : String) (results : Results)
    : (∃ text, Verdict platform directory (.result file) text
        ∧ overwritten (resultWrites (passWrites platform directory order listing)) results file
          = some text)
      ∨ ((∀ text, ¬ Verdict platform directory (.result file) text)
        ∧ overwritten (resultWrites (passWrites platform directory order listing)) results file
          = results file) := by
  by_cases named : file ∈ (resultWrites (passWrites platform directory order listing)).map Prod.fst
  · obtain ⟨text, member, held⟩ := exists_overwritten results named
    exact .inl ⟨text, (mem_passWrites order listed).mp (mem_resultWrites.mp member), held⟩
  · refine .inr ⟨fun text verdict => named ?_, overwritten_of_notMem results named⟩
    exact List.mem_map.mpr
      ⟨_, mem_resultWrites.mpr ((mem_passWrites order listed).mpr verdict), rfl⟩

end Passes

-----------------------------------------------------------------------------------------
-- The second pass
-----------------------------------------------------------------------------------------

section Missing

variable {platform : Platform} {directory : Directory} {order : DictOrder} {test : GradedTest}

/-- The tests of a list that have no report file. -/
def unreported (names : List String) (tests : List GradedTest) : List GradedTest :=
  tests.filter fun test => reportFile test.text ∉ names

theorem notProduced_encodes : Encodes notProduced := by decide

/-- The tests without a report file get an error. -/
theorem generateFailedResult_run (tests : List GradedTest) (disk : Disk)
    : (generateFailedResult platform (tests.map GradedTest.text)).run disk
      = (.ok (), disk.writeAll platform
          ((unreported disk.xml.names tests).map
            fun test => (.result test.text, notProduced))) := by
  induction tests generalizing disk with
  | nil => rfl
  | cons test rest ih =>
      have unfolded
          : (generateFailedResult platform ((test :: rest).map GradedTest.text)).run disk
            = ((if reportFile test.text ∉ disk.xml.names then
                writeResult platform test.text notProduced else pure () : Script PUnit)
              >>= fun _ => generateFailedResult platform (rest.map GradedTest.text)).run disk :=
        rfl
      rw [unfolded, unreported, List.filter_cons]
      by_cases missing : reportFile test.text ∉ disk.xml.names
      · have free : ¬ Blocked platform (test.text, notProduced) := by
          rintro (closed | unwritten)
          · rw [platform.graded] at closed
            cases closed
          · exact unwritten notProduced_encodes
        have own : placed platform [(test.text, notProduced)]
            = [(.result test.text, notProduced)] := by
          simp [placed, platform.graded]
        rw [if_pos missing, if_pos (decide_eq_true missing),
          Program.run_bind_of_ok (writeResult_run disk free), ih, own]
        rfl
      · rw [if_neg missing, if_neg (by simpa using missing)]
        exact ih disk

/-- The second pass writes the error for a test exactly when its report file is missing. -/
theorem mem_unreported {names : List String}
    : test.text ∈ (resultWrites ((unreported names GradedTest.all).map
        fun test => (.result test.text, notProduced))).map Prod.fst
      ↔ reportFile test.text ∉ names := by
  simp only [List.mem_map, Prod.exists, exists_and_right, exists_eq_right, mem_resultWrites]
  constructor
  · rintro ⟨text, other, member, same⟩
    obtain ⟨name, -⟩ := Prod.mk.inj same
    rw [← GradedTest.text_injective (Place.result.inj name)]
    exact of_decide_eq_true (List.mem_filter.mp member).2
  · intro missing
    exact ⟨notProduced, test, List.mem_filter.mpr ⟨test.mem_all, decide_eq_true missing⟩, rfl⟩

/-- There is a file `<test>.xml` after the first pass: it was there, or a name in a report led
to it.
-/
def Reported (platform : Platform) (directory : Directory) (test : GradedTest) : Prop :=
  reportFile test.text ∈ directory.names
  ∨ ∃ text, Verdict platform directory (.report (reportFile test.text)) text

/-- The script on complete reports that do not write over each other: a test without a report
file gets the error, whatever other reports say, and one with a report file keeps what the
first pass left.
-/
theorem main_result (complete : Complete platform directory)
    (separate : Separate platform directory) {listing : List String}
    (listed : listing.Perm directory.names) (results : Results)
    : (¬ Reported platform directory test
        → ((main platform order listing).run ⟨directory, results⟩).2.results test.text
          = some notProduced)
      ∧ (Reported platform directory test
        → ((main platform order listing).run ⟨directory, results⟩).2.results test.text
          = overwritten (resultWrites (passWrites platform directory order listing)) results
              test.text) := by
  let passed := (Disk.mk directory results).writeAll platform
    (passWrites platform directory order listing)
  have present : reportFile test.text ∈ passed.xml.names ↔ Reported platform directory test := by
    rw [Disk.mem_names_writeAll, Reported]
    exact or_congr Iff.rfl (exists_congr fun text => mem_passWrites order listed)
  have run : ((main platform order listing).run ⟨directory, results⟩).2.results
      = overwritten (resultWrites ((unreported passed.xml.names GradedTest.all).map
          fun test => (.result test.text, notProduced))) passed.results := by
    have first : (forM listing fun name => parseTestResult platform order name
        : Script PUnit).run ⟨directory, results⟩ = (.ok (), passed) :=
      pass_run order complete separate listed.subset fun _ _ => rfl
    have whole : (main platform order listing).run ⟨directory, results⟩
        = (generateFailedResult platform spec).run passed :=
      Program.run_bind_of_ok first
    rw [whole, spec, generateFailedResult_run]
    exact passed.results_writeAll _
  have left : overwritten (resultWrites (passWrites platform directory order listing)) results
      = passed.results :=
    ((Disk.mk directory results).results_writeAll _).symm
  rw [run, left]
  constructor
  · intro absent
    obtain ⟨text, member, held⟩ := exists_overwritten passed.results
      (mem_unreported.mpr fun there => absent (present.mp there))
    obtain ⟨_, _, same⟩ := List.mem_map.mp (mem_resultWrites.mp member)
    exact held.trans (congrArg some (Prod.mk.inj same).2.symm)
  · intro there
    exact overwritten_of_notMem _ fun member => mem_unreported.mp member (present.mpr there)

end Missing

-----------------------------------------------------------------------------------------
-- Orders
-----------------------------------------------------------------------------------------

section Orders

variable {platform : Platform} {directory : Directory}

/-- The order that visits the entries with a property first. -/
def DictOrder.first (chosen : String × String → Bool) : DictOrder where
  iteritems entries := entries.filter chosen ++ entries.filter (!chosen ·)
  perm entries := List.filter_append_perm chosen entries

/-- The order that visits the entries with a property last. -/
def DictOrder.last (chosen : String × String → Bool) : DictOrder where
  iteritems entries := entries.filter (!chosen ·) ++ entries.filter chosen
  perm entries := List.perm_append_comm.trans (List.filter_append_perm chosen entries)

/-- An entry that is visited last stays in its file. -/
theorem overwritten_last {entries : List (String × String)} {name text file : String}
    (entry : (name, text) ∈ entries) (leads : platform.place name = some (.result file))
    (earlier : List (Place × String)) (results : Results)
    : overwritten (resultWrites (earlier
          ++ placed platform ((DictOrder.last (· == (name, text))).iteritems entries)))
        results file
      = some text := by
  -- the chosen entries are all the chosen one
  let ending := placed platform (entries.filter (· == (name, text)))
  have chosen : (file, text) ∈ resultWrites ending :=
    mem_resultWrites.mpr (mem_placed.mpr
      ⟨name, List.mem_filter.mpr ⟨entry, beq_self_eq_true _⟩, leads⟩)
  have split (earlier : List (Place × String))
      : resultWrites (earlier ++ ending) = resultWrites earlier ++ resultWrites ending :=
    List.filterMap_append
  simp only [DictOrder.last, placed_append]
  rw [← List.append_assoc, split, overwritten_append]
  obtain ⟨held, written, same⟩ := exists_overwritten (overwritten (resultWrites _) results)
    (List.mem_map_of_mem chosen)
  obtain ⟨_, kept, _⟩ := mem_placed.mp (mem_resultWrites.mp written)
  rw [same, (Prod.mk.inj (eq_of_beq (List.mem_filter.mp kept).2)).2]

/-- A verdict can be made the last that is written to its file. -/
theorem Verdict.last {file text : String}
    (verdict : Verdict platform directory (.result file) text)
    : ∃ (listing : List String) (order : DictOrder), listing.Perm directory.names
      ∧ ∀ results,
        overwritten (resultWrites (passWrites platform directory order listing)) results file
          = some text := by
  obtain ⟨source, member, readable, name, decides, leads⟩ := verdict
  have entry : (name, text) ∈ (directory.report source.1).entries := by
    rw [directory.report_of_mem member]
    exact Report.mem_entries.mpr ⟨readable, decides⟩
  obtain ⟨before, after, split⟩ := List.append_of_mem (List.mem_map_of_mem member)
  refine ⟨before ++ after ++ [source.1], .last (· == (name, text)), ?_, fun results => ?_⟩
  · rw [Directory.names, split]
    exact (List.perm_append_singleton _ _).trans List.perm_middle.symm
  · simp only [passWrites, List.flatMap_append, List.flatMap_singleton]
    exact overwritten_last entry leads _ results

/-- The order that visits the blocked entries first. -/
def DictOrder.blockedFirst (platform : Platform) : DictOrder :=
  .first fun entry => decide (Blocked platform entry)

theorem exists_blocked_first {ret : List (String × String)} {entry : String × String}
    (member : entry ∈ ret) (blocked : Blocked platform entry)
    : ∃ first later, (DictOrder.blockedFirst platform).iteritems ret = first :: later
      ∧ Blocked platform first := by
  have chosen : entry ∈ ret.filter fun entry => decide (Blocked platform entry) :=
    List.mem_filter.mpr ⟨member, decide_eq_true blocked⟩
  obtain ⟨first, rest, split⟩ := List.exists_cons_of_ne_nil (List.ne_nil_of_mem chosen)
  have inside : first ∈ ret.filter fun entry => decide (Blocked platform entry) :=
    split ▸ List.mem_cons_self
  refine ⟨first, rest ++ ret.filter fun entry => !decide (Blocked platform entry), ?_,
    of_decide_eq_true (List.mem_filter.mp inside).2⟩
  simp only [DictOrder.blockedFirst, DictOrder.first, split, List.cons_append]

/-- A report that is not complete has an entry that stops the script, if it is readable. -/
theorem exists_blocked_of_ret {report : Report} {ret : List (String × String)}
    (computed : report.ret = .ok ret) (stops : ¬ report.Complete platform)
    : ∃ entry ∈ ret, Blocked platform entry := by
  by_contra none
  exact stops ⟨Report.readable_of_ret computed, fun name text decides blocked =>
    none ⟨_, (Report.mem_ret computed).mpr decides, blocked⟩⟩

/-- With the blocked entries first, a report that is not complete stops the script before it
writes any verdict; it may have emptied one file.
-/
theorem parseTestResult_stops_at_once {disk : Disk} {name : String}
    (stops : ¬ (disk.xml.report name).Complete platform)
    : ∃ raised entries, entries.length ≤ 1
      ∧ (parseTestResult platform (.blockedFirst platform) name).run disk
        = (.error raised, disk.writeAll platform (placed platform entries)) := by
  cases computed : (disk.xml.report name).ret with
  | error raised =>
      exact ⟨raised, [], Nat.zero_le _, parseTestResult_error disk computed⟩
  | ok ret =>
      obtain ⟨entry, member, blocked⟩ := exists_blocked_of_ret computed stops
      obtain ⟨first, later, split, firstBlocked⟩ := exists_blocked_first member blocked
      obtain ⟨raised, run⟩ := parseTestResult_blocked disk computed
        (show _ = [] ++ first :: later from split)
        (fun _ inside => absurd inside List.not_mem_nil) firstBlocked
      exact ⟨raised, [(first.1, "")], Nat.le_refl 1, run⟩

/-- The script takes up one file of its listing after another. -/
theorem main_cons (order : DictOrder) (name : String) (rest : List String)
    : main platform order (name :: rest)
      = parseTestResult platform order name >>= fun _ => main platform order rest :=
  bind_assoc (parseTestResult platform order name) _ _

/-- A script that stops in the first file of its listing. -/
theorem main_stopped {order : DictOrder} {disk after : Disk} {name : String} {raised : Raised}
    (stopped : (parseTestResult platform order name).run disk = (.error raised, after))
    (rest : List String)
    : ((main platform order (name :: rest)).run disk).2 = after := by
  rw [main_cons, Program.run_bind, stopped]

/-- Each file can be the first of a listing. -/
theorem Directory.exists_first {file : String × Report} (member : file ∈ directory.files)
    : ∃ rest, (file.1 :: rest).Perm directory.names := by
  obtain ⟨before, after, split⟩ := List.append_of_mem (List.mem_map_of_mem member)
  refine ⟨before ++ after, ?_⟩
  rw [Directory.names, split]
  exact List.perm_middle.symm

theorem Directory.exists_first_two {file other : String × Report}
    (member : file ∈ directory.files) (inside : other ∈ directory.files) (apart : other.1 ≠ file.1)
    : ∃ rest, (file.1 :: other.1 :: rest).Perm directory.names := by
  obtain ⟨rest, listed⟩ := Directory.exists_first member
  have later : other.1 ∈ rest := by
    have named := listed.mem_iff.mpr (List.mem_map_of_mem inside)
    exact (List.mem_cons.mp named).resolve_left apart
  exact ⟨rest.erase other.1, ((List.perm_cons_erase later).symm.cons _).trans listed⟩

end Orders

end PMKVLab.Grading
