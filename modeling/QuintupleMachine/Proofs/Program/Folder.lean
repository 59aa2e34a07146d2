import Mathlib.Data.List.Pairwise
import QuintupleMachine.Program.Folder

/-! # What a folder is read as

The readings of a folder are put in an order that compares programs by path and takes failures for
equal.  The names of a folder are distinct and so are the paths made of them, hence there is only
one way to order the programs.  Sorting is stable, so the failures stay as they were listed
(`mergeSort_comesFirst`).

It follows that another listing of the same folder gives the same programs in the same order, and
that an entry adds its reading somewhere and leaves the others as they are
(`mergeSort_comesFirst_insert`). -/

namespace QuintupleMachine

/-! ## File names -/

namespace FileName

/-- From behind, the reader goes past a part without dots. -/
theorem ne_dot_of_mem_reverse {cs : List Char} (h : '.' ∉ cs) :
    ∀ c ∈ cs.reverse, decide (c ≠ '.') = true :=
  fun _ hc => decide_eq_true fun hdot => h (hdot ▸ List.mem_reverse.1 hc)

theorem cut_of_not_mem {cs : List Char} (h : '.' ∉ cs) : cut cs = none := by
  have hrest : (cs.reverse ++ []).dropWhile (· ≠ '.') = [] :=
    List.dropWhile_append_of_pos (ne_dot_of_mem_reverse h)
  rw [List.append_nil] at hrest
  rw [cut, hrest]

theorem cut_append {stem ext : List Char} (h : '.' ∉ ext) :
    cut (stem ++ '.' :: ext) = if stem = [] then none else some (stem, ext) := by
  have hall := ne_dot_of_mem_reverse h
  have hreverse : (stem ++ '.' :: ext).reverse = ext.reverse ++ '.' :: stem.reverse := by
    rw [List.reverse_append, List.reverse_cons, List.append_assoc, List.singleton_append]
  have hext : (ext.reverse ++ '.' :: stem.reverse).takeWhile (· ≠ '.') = ext.reverse := by
    rw [List.takeWhile_append_of_pos hall, List.takeWhile_cons_of_neg (by decide), List.append_nil]
  have hrest : (ext.reverse ++ '.' :: stem.reverse).dropWhile (· ≠ '.') = '.' :: stem.reverse := by
    rw [List.dropWhile_append_of_pos hall, List.dropWhile_cons_of_neg (by decide)]
  rw [cut, hreverse, hext, hrest]
  cases hstem : stem.reverse with
  | nil => rw [if_pos (List.reverse_eq_nil_iff.1 hstem)]
  | cons c cs =>
    have hne : stem ≠ [] := by
      rintro rfl
      cases hstem
    dsimp only
    rw [if_neg hne, ← hstem, List.reverse_reverse, List.reverse_reverse]

/-- The extension of a name is what follows its last dot, unless the name begins with that dot. -/
theorem extension?_eq_some {name ext : String} :
    extension? name = some ext ↔
      ∃ stem, stem ≠ "" ∧ name = stem ++ "." ++ ext ∧ '.' ∉ ext.toList := by
  constructor
  · intro h
    by_cases hdot : '.' ∈ name.toList
    · -- The last dot is the first one from behind.
      obtain ⟨behind, before, hname, hbehind⟩ :=
        List.eq_append_cons_of_mem (List.mem_reverse.2 hdot)
      have hletters : name.toList = before.reverse ++ '.' :: behind.reverse := by
        rw [← List.reverse_reverse name.toList, hname, List.reverse_append, List.reverse_cons,
          List.append_assoc, List.singleton_append]
      rw [extension?, hletters, cut_append (mt List.mem_reverse.1 hbehind)] at h
      split at h
      · cases h
      · rename_i hne
        cases h
        refine ⟨String.ofList before.reverse, ?_, ?_, ?_⟩
        · intro hempty
          have hnil := congrArg String.toList hempty
          rw [String.toList_ofList] at hnil
          exact hne hnil
        · rw [← String.toList_inj, hletters]
          simp
        · rwa [String.toList_ofList, List.mem_reverse]
    · rw [extension?, cut_of_not_mem hdot] at h
      cases h
  · rintro ⟨stem, hstem, rfl, hext⟩
    have hletters : (stem ++ "." ++ ext).toList = stem.toList ++ '.' :: ext.toList := by
      simp
    rw [extension?, hletters, cut_append hext, if_neg (mt String.toList_eq_nil_iff.1 hstem),
      Option.map_some, String.ofList_toList]

/-- Different names in a folder have different paths. -/
theorem join_injective (folder : String) : Function.Injective (join folder) := by
  intro name name' h
  rw [join, join] at h
  split at h
  · exact (String.append_right_inj folder).1 h
  · exact (String.append_right_inj (folder ++ "/")).1 h

end FileName

namespace Program

section

variable {a b : Reading Failure (String × Program)}
variable {readings readings' : List (Reading Failure (String × Program))}

/-! ## The order of readings -/

/-- Whether there is a program. -/
def succeeds (reading : Reading Failure (String × Program)) : Bool := reading.result.isOk

/-- If both are programs, they come from different paths. -/
def Apart (a b : Reading Failure (String × Program)) : Prop :=
  ∀ p q, a.result = .ok p → b.result = .ok q → p.1 ≠ q.1

instance : Std.Symm Apart := ⟨fun _ _ h p q hp hq => (h q p hq hp).symm⟩

theorem succeeds_eq_true : succeeds a = true ↔ ∃ p, a.result = .ok p := by
  rw [succeeds]
  cases a.result with
  | ok p => exact ⟨fun _ => ⟨p, rfl⟩, fun _ => rfl⟩
  | error e => exact ⟨nofun, fun ⟨_, hp⟩ => nomatch hp⟩

theorem succeeds_eq_false : succeeds a = false ↔ ∃ e, a.result = .error e := by
  rw [succeeds]
  cases a.result with
  | ok p => exact ⟨nofun, fun ⟨_, he⟩ => nomatch he⟩
  | error e => exact ⟨fun _ => ⟨e, rfl⟩, fun _ => rfl⟩

/-- All come before a failure, and only programs come before a program. -/
theorem comesFirst_iff : comesFirst a b = true ↔
    succeeds b = false ∨ ∃ p q, a.result = .ok p ∧ b.result = .ok q ∧ p.1 ≤ q.1 := by
  rw [comesFirst, succeeds]
  cases a.result <;> cases b.result <;> simp [Except.isOk, Except.toBool]

theorem le_of_comesFirst {p q : String × Program} (h : comesFirst a b = true)
    (hp : a.result = .ok p) (hq : b.result = .ok q) : p.1 ≤ q.1 := by
  rw [comesFirst, hp, hq] at h
  exact of_decide_eq_true h

theorem succeeds_of_comesFirst (h : comesFirst a b = true) (hb : succeeds b = true) :
    succeeds a = true := by
  rcases comesFirst_iff.1 h with hfailed | ⟨p, -, hp, -, -⟩
  · rw [hb] at hfailed
    cases hfailed
  · exact succeeds_eq_true.2 ⟨p, hp⟩

theorem comesFirst_total (a b : Reading Failure (String × Program)) :
    (comesFirst a b || comesFirst b a) = true := by
  rw [Bool.or_eq_true, comesFirst_iff, comesFirst_iff]
  cases hb : succeeds b with
  | false => exact .inl (.inl rfl)
  | true =>
    cases ha : succeeds a with
    | false => exact .inr (.inl rfl)
    | true =>
      obtain ⟨p, hp⟩ := succeeds_eq_true.1 ha
      obtain ⟨q, hq⟩ := succeeds_eq_true.1 hb
      rcases String.le_total p.1 q.1 with hle | hle
      · exact .inl (.inr ⟨p, q, hp, hq, hle⟩)
      · exact .inr (.inr ⟨q, p, hq, hp, hle⟩)

theorem comesFirst_trans (a b c : Reading Failure (String × Program)) (hab : comesFirst a b = true)
    (hbc : comesFirst b c = true) : comesFirst a c = true := by
  rw [comesFirst_iff]
  rcases comesFirst_iff.1 hbc with hc | ⟨q, r, hq, hr, hqr⟩
  · exact .inl hc
  · obtain ⟨p, hp⟩ := succeeds_eq_true.1 (succeeds_of_comesFirst hab (succeeds_eq_true.2 ⟨q, hq⟩))
    exact .inr ⟨p, r, hp, hr, String.le_trans (le_of_comesFirst hab hp hq) hqr⟩

/-- There is only one order for the programs of a list, as they are from different paths. -/
theorem eq_of_perm_filter {l l' : List (Reading Failure (String × Program))}
    (hapart : readings.Pairwise Apart) (hl : l.Perm (readings.filter succeeds))
    (hl' : l'.Perm (readings.filter succeeds))
    (hsorted : l.Pairwise fun a b => comesFirst a b = true)
    (hsorted' : l'.Pairwise fun a b => comesFirst a b = true) : l = l' := by
  refine List.Perm.eq_of_pairwise (fun a b ha hb hab hba => ?_) hsorted hsorted' (hl.trans hl'.symm)
  obtain ⟨ha, hoka⟩ := List.mem_filter.1 (hl.mem_iff.1 ha)
  obtain ⟨hb, hokb⟩ := List.mem_filter.1 (hl'.mem_iff.1 hb)
  obtain ⟨p, hp⟩ := succeeds_eq_true.1 hoka
  obtain ⟨q, hq⟩ := succeeds_eq_true.1 hokb
  by_contra hne
  exact hapart.forall ha hb hne p q hp hq
    (String.le_antisymm (le_of_comesFirst hab hp hq) (le_of_comesFirst hba hq hp))

/-! ## Programs and failures -/

/-- The readings that are programs, by path. -/
def programsOf (readings : List (Reading Failure (String × Program))) :
    List (Reading Failure (String × Program)) :=
  (readings.filter succeeds).mergeSort comesFirst

/-- The readings that failed, as they were listed. -/
def failuresOf (readings : List (Reading Failure (String × Program))) :
    List (Reading Failure (String × Program)) :=
  readings.filter fun reading => !succeeds reading

theorem succeeds_of_mem_failuresOf (h : a ∈ failuresOf readings) : succeeds a = false := by
  have hfailed : (!succeeds a) = true := (List.mem_filter.1 h).2
  rwa [Bool.not_eq_true'] at hfailed

/-- In a list in order, the programs come first. -/
theorem filter_append_failuresOf (h : readings.Pairwise fun a b => comesFirst a b = true) :
    readings.filter succeeds ++ failuresOf readings = readings := by
  induction readings with
  | nil => rfl
  | cons a readings ih =>
    obtain ⟨hfirst, hrest⟩ := List.pairwise_cons.1 h
    cases ha : succeeds a with
    | true =>
      have hfailed : failuresOf (a :: readings) = failuresOf readings :=
        List.filter_cons_of_neg (by simp [ha])
      rw [List.filter_cons_of_pos ha, hfailed, List.cons_append, ih hrest]
    | false =>
      have hall : ∀ b ∈ a :: readings, succeeds b = false := by
        refine List.forall_mem_cons.2 ⟨ha, fun b hb => Bool.eq_false_iff.2 fun hok => ?_⟩
        rw [succeeds_of_comesFirst (hfirst b hb) hok] at ha
        cases ha
      rw [List.filter_eq_nil_iff.2 fun b hb => by simp [hall b hb], failuresOf,
        List.filter_eq_self.2 fun b hb => by simp [hall b hb], List.nil_append]

theorem perm_programsOf (readings : List (Reading Failure (String × Program))) :
    (programsOf readings).Perm (readings.filter succeeds) :=
  List.mergeSort_perm _ _

theorem pairwise_programsOf (readings : List (Reading Failure (String × Program))) :
    (programsOf readings).Pairwise fun a b => comesFirst a b = true :=
  List.pairwise_mergeSort comesFirst_trans comesFirst_total _

/-- The order in which programs are listed does not matter. -/
theorem programsOf_eq_of_perm (hapart : readings.Pairwise Apart)
    (hperm : readings.Perm readings') : programsOf readings = programsOf readings' :=
  eq_of_perm_filter hapart (perm_programsOf readings)
    ((perm_programsOf readings').trans (hperm.symm.filter _))
    (pairwise_programsOf readings) (pairwise_programsOf readings')

/-- Sorting moves no failure past another one. -/
theorem failuresOf_mergeSort (readings : List (Reading Failure (String × Program))) :
    failuresOf (readings.mergeSort comesFirst) = failuresOf readings := by
  have hequal : (failuresOf readings).Pairwise fun a b => comesFirst a b = true :=
    List.pairwise_of_forall_mem_list fun _ _ _ hb =>
      comesFirst_iff.2 (.inl (succeeds_of_mem_failuresOf hb))
  have hsub : (failuresOf readings).Sublist (readings.mergeSort comesFirst) :=
    List.sublist_mergeSort comesFirst_trans comesFirst_total hequal List.filter_sublist
  have hfailed := hsub.filter fun reading => !succeeds reading
  simp only [failuresOf, List.filter_filter, Bool.and_self] at hfailed
  exact (hfailed.eq_of_length ((List.mergeSort_perm _ _).symm.filter _).length_eq).symm

/-- Sorting puts the programs first and leaves the failures as they were listed. -/
theorem mergeSort_comesFirst (hapart : readings.Pairwise Apart) :
    readings.mergeSort comesFirst = programsOf readings ++ failuresOf readings := by
  have hsorted := List.pairwise_mergeSort comesFirst_trans comesFirst_total readings
  have hprograms : (readings.mergeSort comesFirst).filter succeeds = programsOf readings :=
    eq_of_perm_filter hapart ((List.mergeSort_perm _ _).filter _) (perm_programsOf readings)
      (hsorted.filter _) (pairwise_programsOf readings)
  rw [← filter_append_failuresOf hsorted, hprograms, failuresOf_mergeSort]

/-- One more reading is put somewhere among the others, which stay in their order. -/
theorem mergeSort_comesFirst_insert {before after : List (Reading Failure (String × Program))}
    (hapart : (before ++ a :: after).Pairwise Apart) :
    ∃ front back, (before ++ after).mergeSort comesFirst = front ++ back ∧
      (before ++ a :: after).mergeSort comesFirst = front ++ a :: back := by
  have hrest : (before ++ after).Pairwise Apart :=
    hapart.sublist (.append_left (.cons _ (.refl _)) before)
  rw [mergeSort_comesFirst hapart, mergeSort_comesFirst hrest]
  cases ha : succeeds a with
  | true =>
    -- Programs may be listed in any order, so this one may as well be the first.
    obtain ⟨front, back, hwith, hwithout, -⟩ :=
      List.mergeSort_cons comesFirst_trans comesFirst_total a ((before ++ after).filter succeeds)
    have hcons : programsOf (before ++ a :: after) = front ++ a :: back := by
      rw [programsOf_eq_of_perm hapart List.perm_middle, programsOf, List.filter_cons_of_pos ha,
        hwith]
    have hfailed : failuresOf (before ++ a :: after) = failuresOf (before ++ after) := by
      simp [failuresOf, ha]
    refine ⟨front, back ++ failuresOf (before ++ after), ?_, ?_⟩
    · rw [programsOf, hwithout, List.append_assoc]
    · rw [hcons, hfailed, List.append_assoc, List.cons_append]
  | false =>
    have hsame : programsOf (before ++ a :: after) = programsOf (before ++ after) := by
      simp [programsOf, ha]
    refine ⟨programsOf (before ++ after) ++ failuresOf before, failuresOf after, ?_, ?_⟩
    · simp [failuresOf]
    · rw [hsame]
      simp [failuresOf, ha]

end

/-! ## The entries of a folder -/

variable {folder : String} {entry : Entry} {listed : List (Except String Entry)}

/-- The name of an entry that could be read. -/
def listedName? : Except String Entry → Option String
  | .ok entry => some entry.name
  | .error _ => none

theorem Entry.read?_eq_some {reading : Reading Failure (String × Program)} :
    entry.read? folder = some reading ↔
      ∃ stem bytes, stem ≠ "" ∧ entry.name = stem ++ ".sd" ∧ entry.content = .file bytes ∧
        reading = (load (FileName.join folder entry.name) bytes).map fun program =>
          (FileName.join folder entry.name, program) := by
  have hsd (stem : String) : stem ++ "." ++ extension = stem ++ ".sd" := by
    rw [String.append_assoc]
    rfl
  rw [Entry.read?, Entry.program?]
  constructor
  · intro h
    cases hcontent : entry.content with
    | folder =>
      rw [hcontent] at h
      cases h
    | file bytes =>
      rw [hcontent] at h
      dsimp only at h
      split at h
      · rename_i hext
        obtain ⟨stem, hstem, hname, -⟩ := FileName.extension?_eq_some.1 hext
        rw [hsd] at hname
        cases h
        exact ⟨stem, bytes, hstem, hname, rfl, rfl⟩
      · cases h
  · rintro ⟨stem, bytes, hstem, hname, hcontent, rfl⟩
    have hext : FileName.extension? entry.name = some extension :=
      FileName.extension?_eq_some.2 ⟨stem, hstem, by rw [hname, hsd], by decide⟩
    rw [hcontent]
    dsimp only
    rw [if_pos hext]
    rfl

/-- The path of a program is that of the entry with its name. -/
theorem path_of_readListed? {found : Except String Entry}
    {reading : Reading Failure (String × Program)} {p : String × Program}
    (h : readListed? folder found = some reading) (hp : reading.result = .ok p) :
    ∃ name, listedName? found = some name ∧ p.1 = FileName.join folder name := by
  cases found with
  | error reason =>
    cases h
    cases hp
  | ok entry =>
    obtain ⟨-, bytes, -, -, -, rfl⟩ := Entry.read?_eq_some.1 h
    rw [Reading.result_map] at hp
    cases hload : (load (FileName.join folder entry.name) bytes).result with
    | error e =>
      rw [hload] at hp
      cases hp
    | ok program =>
      rw [hload] at hp
      cases hp
      exact ⟨entry.name, rfl, rfl⟩

/-- Entries with different names are read from different paths. -/
theorem pairwise_apart (hnames : (listed.filterMap listedName?).Nodup) :
    (listed.filterMap (readListed? folder)).Pairwise Apart := by
  rw [List.pairwise_filterMap]
  refine (List.pairwise_filterMap.1 hnames).imp ?_
  intro found found' hne a ha b hb p q hp hq heq
  obtain ⟨name, hname, hpath⟩ := path_of_readListed? ha hp
  obtain ⟨name', hname', hpath'⟩ := path_of_readListed? hb hq
  rw [hpath, hpath'] at heq
  exact hne name hname name' hname' (FileName.join_injective folder heq)

/-- What a folder is read as: programs by path, each path once, and failures after them. -/
structure Arranged (programs failures : List (Reading Failure (String × Program))) : Prop where
  ok : ∀ reading ∈ programs, ∃ program, reading.result = .ok program
  error : ∀ reading ∈ failures, ∃ e, reading.result = .error e
  ascending : programs.Pairwise fun a b =>
    ∀ p q, a.result = .ok p → b.result = .ok q → p.1 < q.1

theorem arranged {readings : List (Reading Failure (String × Program))}
    (hapart : readings.Pairwise Apart) : Arranged (programsOf readings) (failuresOf readings) where
  ok reading hreading :=
    succeeds_eq_true.1 (List.mem_filter.1 ((perm_programsOf readings).mem_iff.1 hreading)).2
  error reading hreading := succeeds_eq_false.1 (succeeds_of_mem_failuresOf hreading)
  ascending := by
    have hapart' : (programsOf readings).Pairwise Apart :=
      ((perm_programsOf readings).pairwise_iff fun h => Std.Symm.symm _ _ h).2 (hapart.filter _)
    refine List.Pairwise.imp₂ (fun a b hab hne p q hp hq => ?_) (pairwise_programsOf readings)
      hapart'
    by_contra hnot
    exact hne p q hp hq (String.le_antisymm (le_of_comesFirst hab hp hq) (String.not_lt.1 hnot))

/-- Reading a folder loses, doubles and mixes nothing.  Each file with something before a final
`.sd` in its name gives what loading it gives, an entry that cannot be read gives its failure, and
no other entry gives anything.  The programs come first, by path; however the folder is listed, they
are the same, and so are the failures up to their order.  If the content of an entry changes, the
readings of the others stay as they are, and in their order. -/
theorem loadFolder_entries (folder : String) (listed : List (Except String Entry))
    (hnames : (listed.filterMap listedName?).Nodup) :
    (loadFolder folder (.entries listed)).Perm (listed.filterMap (readListed? folder)) ∧
    (∀ entry reading, readListed? folder (.ok entry) = some reading ↔
      ∃ stem bytes, stem ≠ "" ∧ entry.name = stem ++ ".sd" ∧ entry.content = .file bytes ∧
        reading = (load (FileName.join folder entry.name) bytes).map fun program =>
          (FileName.join folder entry.name, program)) ∧
    (∀ reason, readListed? folder (.error reason) =
      some (.ofExcept (.error (.unreadableEntry reason)))) ∧
    (∃ programs failures, Arranged programs failures ∧
      loadFolder folder (.entries listed) = programs ++ failures ∧
      ∀ relisted : List (Except String Entry), relisted.Perm listed → ∃ failures',
        loadFolder folder (.entries relisted) = programs ++ failures' ∧
          failures'.Perm failures) ∧
    ∀ before name content after, listed = before ++ .ok ⟨name, content⟩ :: after →
      ∀ content', ∃ front back,
        loadFolder folder (.entries (before ++ after)) = front ++ back ∧
        loadFolder folder (.entries (before ++ .ok ⟨name, content'⟩ :: after)) =
          front ++ (readListed? folder (.ok ⟨name, content'⟩)).toList ++ back := by
  have hapart : (listed.filterMap (readListed? folder)).Pairwise Apart := pairwise_apart hnames
  refine ⟨List.mergeSort_perm _ _, fun entry reading => Entry.read?_eq_some, fun _ => rfl, ?_, ?_⟩
  · refine ⟨_, _, arranged hapart, mergeSort_comesFirst hapart, fun relisted hrelisted => ?_⟩
    have hperm := hrelisted.filterMap (readListed? folder)
    have hapart' : (relisted.filterMap (readListed? folder)).Pairwise Apart :=
      pairwise_apart ((hrelisted.filterMap listedName?).nodup_iff.2 hnames)
    refine ⟨failuresOf (relisted.filterMap (readListed? folder)), ?_, hperm.filter _⟩
    rw [← programsOf_eq_of_perm hapart' hperm]
    exact mergeSort_comesFirst hapart'
  · rintro before name content after rfl content'
    -- The names are the same with either content.
    have hnames' :
        ((before ++ .ok ⟨name, content'⟩ :: after).filterMap listedName?).Nodup := by
      rw [List.filterMap_append, List.filterMap_cons] at hnames ⊢
      exact hnames
    have hapart' : ((before ++ .ok ⟨name, content'⟩ :: after).filterMap
        (readListed? folder)).Pairwise Apart := pairwise_apart hnames'
    simp only [loadFolder, List.filterMap_append, List.filterMap_cons] at hapart' ⊢
    cases hread : readListed? folder (.ok ⟨name, content'⟩) with
    | none => exact ⟨_, [], (List.append_nil _).symm, by simp⟩
    | some reading =>
      rw [hread] at hapart'
      obtain ⟨front, back, hwithout, hwith⟩ := mergeSort_comesFirst_insert hapart'
      exact ⟨front, back, hwithout, by simpa using hwith⟩

/-- A folder with a file and an entry that cannot be read, a program, a note and another folder. -/
def mixedEntries : List (Except String Entry) :=
  [.ok ⟨"lost.sd", .file (.error "denied")⟩, .ok ⟨"ones.sd", .file (.ok "DADDCCRDA;".toUTF8)⟩,
    .error "stale", .ok ⟨"notes.txt", .file (.ok "".toUTF8)⟩, .ok ⟨"old.sd", .folder⟩]

theorem loadFolder_entries_mixed :
    (mixedEntries.filterMap listedName?).Nodup ∧
      (loadFolder "programs" (.entries mixedEntries)).map (fun reading => reading.result.toOption) =
        [some ("programs/ones.sd",
          ⟨"ones", "DADDCCRDA;", none, .ofList [⟨1, .blank, .one, .right, 1⟩]⟩), none, none] := by
  have hnames : (mixedEntries.filterMap listedName?).Nodup := by decide
  have hread : (mixedEntries.filterMap (readListed? "programs")).map
      (fun reading => reading.result.toOption) =
        [none, some ("programs/ones.sd",
          ⟨"ones", "DADDCCRDA;", none, .ofList [⟨1, .blank, .one, .right, 1⟩]⟩), none] := by
    decide +kernel
  obtain ⟨hperm, -, -, ⟨programs, failures, harranged, heq, -⟩, -⟩ :=
    loadFolder_entries "programs" mixedEntries hnames
  refine ⟨hnames, ?_⟩
  rw [heq] at hperm ⊢
  replace hperm := hperm.map fun reading => reading.result.toOption
  rw [hread] at hperm
  cases programs with
  | nil =>
    obtain ⟨reading, hreading, hok⟩ := List.mem_map.1 (hperm.mem_iff.2 (.tail _ (.head _)))
    obtain ⟨e, he⟩ := harranged.error reading hreading
    rw [he] at hok
    cases hok
  | cons first rest =>
    obtain ⟨p, hp⟩ := harranged.ok first (.head _)
    rw [List.cons_append, List.map_cons, hp] at hperm ⊢
    have hfirst := hperm.mem_iff.1 (.head _)
    simp only [Except.toOption, List.mem_cons, List.not_mem_nil, reduceCtorEq, false_or,
      or_false] at hfirst
    rw [Except.toOption, hfirst] at hperm ⊢
    -- Beside the program there are two failures, and without their reasons they are the same.
    have hrest := (List.perm_cons _).1 (hperm.trans (.swap _ _ [none]))
    rw [List.perm_replicate.1 (hrest.trans (.refl (List.replicate 2 none)))]
    rfl

end Program

end QuintupleMachine
