import PMKVLab.Grading.ScriptRuns

/-! Reports whose names lead to result files only. The script leaves their directory alone, also
when one of them stops it, and its orders decide what has been written until then.
-/

namespace PMKVLab.Grading

open PMKVLab.Library

/-- No name in a readable report leads back into the directory. -/
def Outward (platform : Platform) (directory : Directory) : Prop :=
  ∀ name text, ¬ Verdict platform directory (.report name) text

-----------------------------------------------------------------------------------------
-- What a run can leave
-----------------------------------------------------------------------------------------

/-- What a run can leave in a result file: what was there, the error for a missing report, a
verdict, or nothing if a verdict cannot be written.
-/
def Leaves (platform : Platform) (directory : Directory) (file : String)
    (before after : Option String) : Prop :=
  after = before ∨ after = some notProduced
  ∨ ∃ text, Verdict platform directory (.result file) text
    ∧ after = some (if Encodes text then text else "")

section Outward

variable {platform : Platform} {directory : Directory} (outward : Outward platform directory)

include outward

theorem Outward.separate : Separate platform directory :=
  fun name text verdict => absurd verdict (outward name text)

/-- Only the directory itself shows whether a test has a report file. -/
theorem Outward.reported_iff (test : GradedTest)
    : Reported platform directory test ↔ reportFile test.text ∈ directory.names :=
  ⟨fun reported => reported.resolve_right fun ⟨text, verdict⟩ => outward _ text verdict, .inl⟩

omit outward in
/-- Writing to a result file changes no other file. -/
theorem writeResult_leaves {name text : String}
    (result : ∀ report, platform.place name ≠ some (.report report)) (disk : Disk)
    (file : String)
    : ((writeResult platform name text).run disk).2.xml = disk.xml
      ∧ (((writeResult platform name text).run disk).2.results file = disk.results file
        ∨ platform.place name = some (.result file)
          ∧ ((writeResult platform name text).run disk).2.results file
            = some (if Encodes text then text else "")) := by
  have holds (written : List (Place × String)) (value : String)
      (places : written = placed platform [(name, value)])
      : (disk.writeAll platform written).xml = disk.xml
        ∧ ((disk.writeAll platform written).results file = disk.results file
          ∨ platform.place name = some (.result file)
            ∧ (disk.writeAll platform written).results file = some value) := by
    subst places
    rw [disk.results_writeAll]
    cases leads : platform.place name with
    | none => simp [placed, leads, Disk.writeAll, resultWrites]
    | some place =>
        cases place with
        | report report => exact absurd leads (result report)
        | result other =>
            by_cases same : other = file
            · subst same
              simp [placed, leads, Disk.writeAll, Disk.write, resultWrites, overwritten_cons]
            · have apart : file ≠ other := fun equal => same equal.symm
              simp [placed, leads, Disk.writeAll, Disk.write, resultWrites, overwritten_cons,
                apart, same]
  by_cases blocked : Blocked platform (name, text)
  · obtain ⟨raised, run⟩ := writeResult_blocked disk blocked
    rw [show writeResult platform name text = writeResult platform (name, text).1 (name, text).2
      from rfl, run]
    obtain ⟨same, unchanged | ⟨leads, empty⟩⟩ := holds _ "" rfl
    · exact ⟨same, .inl unchanged⟩
    · have unwritten : ¬ Encodes text := blocked.resolve_left (by simp [leads])
      rw [if_neg unwritten]
      exact ⟨same, .inr ⟨leads, empty⟩⟩
  · have run := writeResult_run disk blocked
    rw [show writeResult platform name text = writeResult platform (name, text).1 (name, text).2
      from rfl, run]
    rw [if_pos (not_not.mp (not_or.mp blocked).2)]
    exact holds _ text rfl

omit outward in
/-- The entries of a report are verdicts of its directory. -/
theorem verdict_of_ret {name : String} {ret : List (String × String)}
    (computed : (directory.report name).ret = .ok ret) {entry : String × String}
    (member : entry ∈ ret) {place : Place} (leads : platform.place entry.1 = some place)
    : Verdict platform directory place entry.2 := by
  have decides := (Report.mem_ret computed).mp member
  exact ⟨_, directory.mem_files_of_name (directory.name_of_decides decides),
    Report.readable_of_ret computed, entry.1, decides, leads⟩

/-- The script leaves the directory as it was and its result files with what they can hold, also
when it stops.
-/
theorem Outward.main_leaves (order : DictOrder) (listing : List String) (results : Results)
    (file : String)
    : ((main platform order listing).run ⟨directory, results⟩).2.xml = directory
      ∧ Leaves platform directory file (results file)
        (((main platform order listing).run ⟨directory, results⟩).2.results file) := by
  let holds (disk : Disk) : Prop :=
    disk.xml = directory ∧ Leaves platform directory file (results file) (disk.results file)
  have parses (name : String) : (parseTestResult platform order name).Keeps holds := by
    rintro disk ⟨same, left⟩
    cases computed : (disk.xml.report name).ret with
    | error raised =>
        rw [parseTestResult_error disk computed]
        exact ⟨same, left⟩
    | ok ret =>
        rw [parseTestResult_eq disk computed]
        rw [same] at computed
        have writes : (forM (order.iteritems ret) fun entry => writeResult platform entry.1 entry.2
            : Script PUnit).Keeps holds := by
          refine Program.keeps_forM fun entry listed disk ⟨same, left⟩ => ?_
          have verdict {place : Place} (leads : platform.place entry.1 = some place) :=
            verdict_of_ret computed ((order.perm ret).mem_iff.mp listed) leads
          obtain ⟨kept, unchanged | ⟨leads, written⟩⟩ := writeResult_leaves
            (fun report leads => outward report entry.2 (verdict leads)) disk file
          · exact ⟨kept.trans same, unchanged ▸ left⟩
          · exact ⟨kept.trans same, .inr (.inr ⟨entry.2, verdict leads, written⟩)⟩
        exact writes disk ⟨same, left⟩
  have generates : (generateFailedResult platform spec).Keeps holds := by
    refine Program.keeps_forM fun name member => (Program.keeps_gets _).bind fun names => ?_
    obtain ⟨test, -, rfl⟩ := List.mem_map.mp member
    split
    · rintro disk ⟨same, left⟩
      obtain ⟨kept, unchanged | ⟨-, written⟩⟩ := writeResult_leaves
        (fun report leads => by cases (platform.graded test).symm.trans leads) disk file
      · exact ⟨kept.trans same, unchanged ▸ left⟩
      · rw [if_pos notProduced_encodes] at written
        exact ⟨kept.trans same, .inr (.inl written)⟩
    · exact Program.keeps_pure ()
  have whole : (main platform order listing).Keeps holds :=
    (Program.keeps_forM fun name _ => parses name).bind fun _ => generates
  exact whole ⟨directory, results⟩ ⟨rfl, .inl rfl⟩

end Outward

-----------------------------------------------------------------------------------------
-- Orders that stop the script
-----------------------------------------------------------------------------------------

/-- An order for a chosen entry: it comes last, unless some entry of the dictionary stops the
script; then one that does comes right after it.
-/
def DictOrder.stopping (platform : Platform) (chosen : String × String) : DictOrder where
  iteritems entries :=
    if ∃ entry ∈ entries, Blocked platform entry then
      entries.filter (· == chosen)
        ++ (DictOrder.blockedFirst platform).iteritems (entries.filter (!· == chosen))
    else (DictOrder.last (· == chosen)).iteritems entries
  perm entries := by
    split
    · exact ((DictOrder.blockedFirst platform).perm _).append_left _ |>.trans
        (List.filter_append_perm (· == chosen) entries)
    · exact (DictOrder.last (· == chosen)).perm entries

section Stopping

variable {platform : Platform} {directory : Directory} {name file : String}
  (leads : platform.place name = some (.result file))

include leads

/-- A report that is not complete stops the script. The file is empty then, if it was before or
the report has the chosen entry.
-/
theorem parseTestResult_stopping {disk : Disk} {source : String}
    (stops : ¬ (disk.xml.report source).Complete platform)
    : ∃ raised after,
      (parseTestResult platform (.stopping platform (name, "")) source).run disk
        = (.error raised, after)
      ∧ (disk.results file = some ""
          ∨ (disk.xml.report source).Readable ∧ (disk.xml.report source).Decides name ""
        → after.results file = some "") := by
  cases computed : (disk.xml.report source).ret with
  | error raised =>
      refine ⟨raised, disk, parseTestResult_error disk computed, ?_⟩
      rintro (empty | ⟨readable, -⟩)
      · exact empty
      · obtain ⟨ret, found, -⟩ := readable.ret
        cases computed.symm.trans found
  | ok ret =>
      obtain ⟨entry, member, blocked⟩ := exists_blocked_of_ret computed stops
      have free : ¬ Blocked platform (name, "") := by
        rintro (closed | unwritten)
        · cases leads.symm.trans closed
        · exact unwritten (by decide : Encodes "")
      have apart : entry ≠ (name, "") := by
        rintro rfl
        exact free blocked
      have other : entry ∈ ret.filter (!· == (name, "")) :=
        List.mem_filter.mpr ⟨member, by simpa using apart⟩
      obtain ⟨first, later, split, firstBlocked⟩ := exists_blocked_first other blocked
      have visited : (DictOrder.stopping platform (name, "")).iteritems ret
          = ret.filter (· == (name, "")) ++ first :: later := by
        simp only [DictOrder.stopping, if_pos (⟨entry, member, blocked⟩ : ∃ entry ∈ ret, _)]
        rw [split]
      have chosen : ∀ entry ∈ ret.filter (· == (name, "")), entry = (name, "") :=
        fun entry inside => eq_of_beq (List.mem_filter.mp inside).2
      obtain ⟨raised, run⟩ := parseTestResult_blocked disk computed visited
        (fun entry inside => chosen entry inside ▸ free) firstBlocked
      refine ⟨raised, _, run, fun before => ?_⟩
      rw [disk.results_writeAll]
      by_cases named : file ∈ (resultWrites (placed platform
          (ret.filter (· == (name, "")) ++ [(first.1, "")]))).map Prod.fst
      · obtain ⟨text, written, held⟩ := exists_overwritten disk.results named
        obtain ⟨source, entry, -⟩ := mem_placed.mp (mem_resultWrites.mp written)
        rw [held]
        rcases List.mem_append.mp entry with inside | last
        · exact congrArg some (Prod.mk.inj (chosen _ inside)).2
        · exact congrArg some (Prod.mk.inj (List.mem_singleton.mp last)).2
      · rw [overwritten_of_notMem _ named]
        rcases before with empty | ⟨-, decides⟩
        · exact empty
        · refine absurd ?_ named
          have inside : (name, "") ∈ ret.filter (· == (name, "")) :=
            List.mem_filter.mpr ⟨(Report.mem_ret computed).mpr decides, beq_self_eq_true _⟩
          exact List.mem_map_of_mem (mem_resultWrites.mpr (mem_placed.mpr
            ⟨name, List.mem_append_left _ inside, leads⟩))

/-- A listing that begins with a report that stops the script keeps an empty file empty. -/
theorem main_keeps_empty {source : String} (stops : ¬ (directory.report source).Complete platform)
    (rest : List String) {results : Results} (empty : results file = some "")
    : ((main platform (.stopping platform (name, "")) (source :: rest)).run
        ⟨directory, results⟩).2.results file = some "" := by
  obtain ⟨raised, after, run, left⟩ := parseTestResult_stopping leads
    (show ¬ ((Disk.mk directory results).xml.report source).Complete platform from stops)
  rw [main_stopped run]
  exact left (.inl empty)

end Stopping

section Emptied

variable {platform : Platform} {directory : Directory} {file : String}

/-- The script can be made to leave a result file empty. -/
def CanEmpty (platform : Platform) (directory : Directory) (file : String) : Prop :=
  ∃ listing order, listing.Perm directory.names
    ∧ ∀ results, ((main platform order listing).run ⟨directory, results⟩).2.results file = some ""

/-- A verdict that cannot be written empties its file, when it is the first to be visited. -/
theorem canEmpty_of_unwritten {text : String}
    (verdict : Verdict platform directory (.result file) text) (unwritten : ¬ Encodes text)
    : CanEmpty platform directory file := by
  obtain ⟨source, member, readable, name, decides, leads⟩ := verdict
  obtain ⟨rest, listed⟩ := Directory.exists_first member
  let order : DictOrder := .first (· == (name, text))
  refine ⟨_, order, listed, fun results => ?_⟩
  let disk : Disk := ⟨directory, results⟩
  have same : disk.xml.report source.1 = source.2 := directory.report_of_mem member
  obtain ⟨ret, computed, found⟩ := readable.ret
  have chosen : (name, text) ∈ ret.filter (· == (name, text)) :=
    List.mem_filter.mpr ⟨(found name text).mpr decides, beq_self_eq_true _⟩
  obtain ⟨first, later, split⟩ := List.exists_cons_of_ne_nil (List.ne_nil_of_mem chosen)
  obtain rfl : first = (name, text) := by
    have inside : first ∈ ret.filter (· == (name, text)) := split ▸ List.mem_cons_self
    exact eq_of_beq (List.mem_filter.mp inside).2
  have visited : order.iteritems ret
      = [] ++ (name, text) :: (later ++ ret.filter (!· == (name, text))) := by
    simp only [order, DictOrder.first, split, List.cons_append, List.nil_append]
  obtain ⟨raised, run⟩ := parseTestResult_blocked disk
    (show (disk.xml.report source.1).ret = .ok ret from same ▸ computed) visited
    (fun _ inside => absurd inside List.not_mem_nil) (.inr unwritten)
  rw [main_stopped run rest, disk.results_writeAll]
  simp [placed, leads, resultWrites, overwritten_cons]

/-- An empty verdict can be the last of all, and stays if the test has a report file. -/
theorem Outward.canEmpty_of_complete (outward : Outward platform directory) {test : GradedTest}
    (verdict : Verdict platform directory (.result test.text) "")
    (complete : Complete platform directory) (reported : reportFile test.text ∈ directory.names)
    : CanEmpty platform directory test.text := by
  obtain ⟨listing, order, listed, last⟩ := verdict.last
  refine ⟨listing, order, listed, fun results => ?_⟩
  rw [(main_result complete outward.separate listed results).2 (.inl reported), last]

/-- A complete report with an empty verdict is passed, and the verdict written last in it. -/
theorem parseTestResult_stopping_of_complete {disk : Disk} {source name : String}
    (leads : platform.place name = some (.result file))
    (complete : (disk.xml.report source).Complete platform)
    (decides : (disk.xml.report source).Decides name "")
    : ∃ writes,
      (parseTestResult platform (.stopping platform (name, "")) source).run disk
        = (.ok (), disk.writeAll platform writes)
      ∧ (∀ place text, (place, text) ∈ writes → Verdict platform disk.xml place text)
      ∧ (disk.writeAll platform writes).results file = some "" := by
  let entries := (disk.xml.report source).entries
  have entry : (name, "") ∈ entries := Report.mem_entries.mpr ⟨complete.readable, decides⟩
  have free : ¬ ∃ entry ∈ entries, Blocked platform entry := fun ⟨entry, inside, blocked⟩ =>
    complete.free _ _ (Report.mem_entries.mp inside).2 blocked
  have last : (DictOrder.stopping platform (name, "")).iteritems entries
      = (DictOrder.last (· == (name, ""))).iteritems entries :=
    if_neg free
  refine ⟨_, parseTestResult_run disk complete, fun place text written => ?_, ?_⟩
  · obtain ⟨_, visited, leads⟩ := mem_placed.mp written
    have decided := Report.mem_entries.mp ((DictOrder.perm _ _).mem_iff.mp visited)
    exact ⟨_, disk.xml.mem_files_of_name (disk.xml.name_of_decides decided.2), decided.1, _,
      decided.2, leads⟩
  · rw [disk.results_writeAll, last]
    exact overwritten_last entry leads [] disk.results

/-- An empty verdict can be the last that is written before the script stops. -/
theorem Outward.canEmpty (outward : Outward platform directory)
    (verdict : Verdict platform directory (.result file) "")
    (stops : ¬ Complete platform directory)
    : CanEmpty platform directory file := by
  obtain ⟨source, member, readable, name, decides, leads⟩ := verdict
  have same := directory.report_of_mem member
  by_cases complete : source.2.Complete platform
  · obtain ⟨blocker, inside, incomplete⟩
        : ∃ blocker ∈ directory.files, ¬ blocker.2.Complete platform := by
      simpa [Complete] using stops
    have other := directory.report_of_mem inside
    have apart : blocker.1 ≠ source.1 := fun equal =>
      incomplete (other ▸ equal ▸ same.symm ▸ complete)
    obtain ⟨rest, listed⟩ := Directory.exists_first_two member inside apart
    refine ⟨_, .stopping platform (name, ""), listed, fun results => ?_⟩
    let disk : Disk := ⟨directory, results⟩
    have found : disk.xml.report source.1 = source.2 := same
    obtain ⟨writes, written, verdicts, empty⟩ := parseTestResult_stopping_of_complete leads
      (show (disk.xml.report source.1).Complete platform from found ▸ complete)
      (show (disk.xml.report source.1).Decides name "" from found ▸ decides)
    have kept : (disk.writeAll platform writes).xml.report blocker.1 = blocker.2 := by
      rw [disk.report_writeAll fun text inside => outward _ text (verdicts _ text inside)]
      exact other
    obtain ⟨raised, after, run, left⟩ := parseTestResult_stopping leads
      (show ¬ ((disk.writeAll platform writes).xml.report blocker.1).Complete platform from
        kept ▸ incomplete)
    rw [main_cons, Program.run_bind_of_ok written, main_stopped run]
    exact left (.inl empty)
  · obtain ⟨rest, listed⟩ := Directory.exists_first member
    refine ⟨_, .stopping platform (name, ""), listed, fun results => ?_⟩
    let disk : Disk := ⟨directory, results⟩
    have found : disk.xml.report source.1 = source.2 := same
    obtain ⟨raised, after, run, left⟩ := parseTestResult_stopping leads
      (show ¬ (disk.xml.report source.1).Complete platform from found ▸ complete)
    rw [main_stopped run]
    exact left (.inr (found ▸ ⟨readable, decides⟩))

end Emptied

end PMKVLab.Grading
