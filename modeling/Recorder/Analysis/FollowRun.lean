import Mathlib.Logic.Relation
import Recorder.Analysis.FollowScan

/-!
# Following a recorder

A recorder that appends frames and rotates, and a reader that processes events and scans,
in any order (`FollowStep`). What the reader has delivered is compared with what lies
between the marks it started with and the marks it has now (`DeliveredOnce`).

A scan without a noticed change of the directory looks at the newest segments only and
moves the marks there. Entries that were appended to the segment before the rotation are
then in front of the mark and never delivered (`rotatedStore_entry_lost`). As long as every
scan either looks at the whole directory or finds nothing in older segments, each entry is
delivered once.

**Main result**: `follow_delivers_once`.
-/

set_option autoImplicit false

namespace Recorder.Analysis

open Recorder.Model Recorder.Lib

/-! ## The recorder's actions -/

/-- A frame is appended to the active segment of a group. -/
def AppendsFrame (store store' : Store) : Prop :=
  ∃ before f after f' frame, store.files = before ++ f :: after ∧
    store'.files = before ++ f' :: after ∧ store'.directory = store.directory ∧
    IsNewest store f ∧ f.file.footer = none ∧ f'.file.footer = none ∧
    f'.group = f.group ∧ f'.nameSeq = f.nameSeq ∧ f'.file.header = f.file.header ∧
    f'.file.frames = f.file.frames ++ [frame] ∧ f.file.committedEnd ≤ frame.fileOffset

/-- A footer behind the frames of a segment. -/
structure Sealed (f f' : StoreFile) : Prop where
  group : f'.group = f.group
  name : f'.nameSeq = f.nameSeq
  header : f'.file.header = f.file.header
  frames : f'.file.frames = f.file.frames
  footer : f'.file.footer.isSome
  grown : f.file.committedEnd ≤ f'.file.committedEnd

/-- The active segment of a group gets its footer, and a segment with a larger number and
no frame yet appears in the group. A group may also be a new one. -/
def Rotates (store store' : Store) : Prop :=
  ∃ n files', store'.files.Perm (n :: files') ∧ store'.directory = store.directory ∧
    List.Forall₂ (fun f f' => f' = f ∨ IsNewest store f ∧ f.group = n.group ∧ Sealed f f')
      store.files files' ∧
    (∀ f ∈ store.files, f.group = n.group → f.nameSeq < n.nameSeq) ∧
    n.file.header.segmentSeq = n.nameSeq ∧ n.file.frames = [] ∧ n.file.footer = none

/-! ## Runs -/

/-- The log directory, the events that wait for the reader, the reader's follow state and
what its callback got. -/
structure FollowWorld where
  store : Store
  events : List FollowEvent
  follow : FollowState
  delivered : List StoredEntry

/-- One action of the recorder or one call of the reader. `allowed` restricts the states in
which the reader scans. -/
inductive FollowStep (filter : List Bytes) (allowed : FollowWorld → Prop) :
    FollowWorld → FollowWorld → Prop
  | append (w : FollowWorld) (store' : Store) (h : AppendsFrame w.store store') :
      FollowStep filter allowed w { w with store := store', events := w.events ++ [.modify] }
  | rotate (w : FollowWorld) (store' : Store) (h : Rotates w.store store') :
      FollowStep filter allowed w
        { w with store := store', events := w.events ++ [.modify, .create] }
  | process (w : FollowWorld) (watching : Bool) :
      FollowStep filter allowed w
        { w with events := [], follow := (recPlayerProcess watching w.events w.follow).2 }
  | scan (w : FollowWorld) (n : ℕ) (entries : List StoredEntry) (st : FollowState)
      (hallowed : allowed w)
      (h : scanFollow w.store filter (fun _ => none) n w.follow = (0, entries, st)) :
      FollowStep filter allowed w { w with follow := st, delivered := w.delivered ++ entries }

/-- A reader that was set up with `rec_player_seek_tail` or a first
`rec_player_scan_follow`, and has delivered nothing since. -/
structure FollowStarted (filter : List Bytes) (w : FollowWorld) : Prop where
  wf : StoreWf w.store
  directory : w.store.directory = true
  started : w.follow = initializeTailFollow w.store filter {} ∨
    ∃ n entries, scanFollow w.store filter (fun _ => none) n {} = (0, entries, w.follow)
  delivered : w.delivered = []

/-- Every entry between the marks at the start and the marks now was delivered once, and
nothing else was. -/
def DeliveredOnce (filter : List Bytes) (w₀ w : FollowWorld) : Prop :=
  w.delivered.Perm ((selectedEntries w.store filter).filter fun e =>
    afterMark w₀.follow.segments e && !afterMark w.follow.segments e)

/-- A change of the directory was noticed, or everything behind the marks is in the newest
segments. -/
def SeesAll (filter : List Bytes) (w : FollowWorld) : Prop :=
  w.follow.topologyPending = true ∨ NewestOnly w.store filter w.follow.segments

/-! ## What the recorder's actions keep -/

/-- The same segments, possibly longer. -/
def Grown (f f' : StoreFile) : Prop :=
  f'.group = f.group ∧ f'.nameSeq = f.nameSeq ∧ f'.file.header = f.file.header ∧
    f.file.committedEnd ≤ f'.file.committedEnd

section Grown

variable {files files' : List StoreFile}

/-- A file has grown by nothing. -/
theorem Grown.rfl {f : StoreFile} : Grown f f :=
  ⟨Eq.refl _, Eq.refl _, Eq.refl _, UInt64.le_refl _⟩

/-- A file behind the growth has one in front of it. -/
theorem forall₂_grown_left (h : List.Forall₂ Grown files files') {f' : StoreFile}
    (hf' : f' ∈ files') : ∃ f ∈ files, Grown f f' := by
  induction h with
  | nil => cases hf'
  | cons h0 _ ih =>
    rcases List.mem_cons.mp hf' with rfl | hmem
    · exact ⟨_, by simp, h0⟩
    · obtain ⟨f, hf, hgrown⟩ := ih hmem
      exact ⟨f, by simp [hf], hgrown⟩

/-- A file in front of the growth has one behind it. -/
theorem forall₂_grown_right (h : List.Forall₂ Grown files files') {f : StoreFile}
    (hf : f ∈ files) : ∃ f' ∈ files', Grown f f' := by
  induction h with
  | nil => cases hf
  | cons h0 _ ih =>
    rcases List.mem_cons.mp hf with rfl | hmem
    · exact ⟨_, by simp, h0⟩
    · obtain ⟨f', hf', hgrown⟩ := ih hmem
      exact ⟨f', by simp [hf'], hgrown⟩

/-- The names stay different. -/
theorem names_of_grown (h : List.Forall₂ Grown files files')
    (hnames : files.Pairwise fun f g => f.group = g.group → f.nameSeq ≠ g.nameSeq) :
    files'.Pairwise fun f g => f.group = g.group → f.nameSeq ≠ g.nameSeq := by
  induction h with
  | nil => exact List.Pairwise.nil
  | cons h0 hrest ih =>
    obtain ⟨hfirst, hnames⟩ := List.pairwise_cons.mp hnames
    refine List.pairwise_cons.mpr ⟨?_, ih hnames⟩
    intro g' hg' hgroup
    obtain ⟨g, hg, hgrown⟩ := forall₂_grown_left hrest hg'
    rw [h0.2.1, hgrown.2.1]
    apply hfirst g hg
    rw [← h0.1, ← hgrown.1, hgroup]

end Grown

/-- The store after an append holds the same segments and the entries of one frame more. -/
theorem AppendsFrame.spec {store store' : Store} (h : AppendsFrame store store') :
    store'.directory = store.directory ∧ List.Forall₂ Grown store.files store'.files ∧
      ∃ f frame, IsNewest store f ∧ f.file.committedEnd ≤ frame.fileOffset ∧
        ∀ filter, (selectedEntries store' filter).Perm (selectedEntries store filter ++
          if groupAllowed filter f.group then scanFrame f.group f.file.header frame else []) := by
  obtain ⟨before, f, after, f', frame, hfiles, hfiles', hdir, hnewest, -, -, hgroup, hname, hheader,
    hframes, hend⟩ := h
  have hentries : f'.fileEntries = f.fileEntries ++ scanFrame f.group f.file.header frame := by
    unfold StoreFile.fileEntries
    rw [hframes, hgroup, hheader, List.flatMap_append]
    simp
  have hgrown : Grown f f' := by
    refine ⟨hgroup, hname, hheader, ?_⟩
    have hlt := f'.file.offset_lt_end frame (by rw [hframes]; simp)
    exact UInt64.le_trans hend (UInt64.le_of_lt hlt)
  refine ⟨hdir, ?_, f, frame, hnewest, hend, ?_⟩
  · rw [hfiles, hfiles']
    exact List.rel_append (List.forall₂_same.mpr fun _ _ => Grown.rfl)
      (.cons hgrown (List.forall₂_same.mpr fun _ _ => Grown.rfl))
  · intro filter
    unfold selectedEntries
    rw [hfiles, hfiles']
    by_cases hallowed : groupAllowed filter f.group = true
    · have hallowed' : groupAllowed filter f'.group = true := by rw [hgroup]; exact hallowed
      simp only [List.filter_append, List.filter_cons, hallowed, hallowed', if_true,
        List.flatMap_append, List.flatMap_cons, hentries, List.append_assoc]
      apply List.Perm.append_left
      apply List.Perm.append_left
      exact List.perm_append_comm
    · have hallowed' : ¬ groupAllowed filter f'.group = true := by rw [hgroup]; exact hallowed
      simp only [List.filter_append, List.filter_cons, hallowed, hallowed', if_false,
        List.append_nil, Bool.false_eq_true]
      exact List.Perm.refl _

/-- The newest segments stay the newest ones while nothing is added. -/
theorem isNewest_of_grown {store store' : Store} (h : List.Forall₂ Grown store.files store'.files)
    {f : StoreFile} (hf : IsNewest store f) : ∃ f', IsNewest store' f' ∧ Grown f f' := by
  obtain ⟨f', hf', hgrown⟩ := forall₂_grown_right h hf.mem
  refine ⟨f', ⟨hf', ?_⟩, hgrown⟩
  intro g' hg' hgroup
  obtain ⟨g, hg, hgg⟩ := forall₂_grown_left h hg'
  rw [hgg.2.1, hgrown.2.1]
  apply hf.le g hg
  rw [← hgg.1, ← hgrown.1, hgroup]

section Append

variable {store store' : Store} (happend : AppendsFrame store store')

include happend

/-- A store with one more frame is well formed. -/
theorem AppendsFrame.wf (hwf : StoreWf store) (hdir : store.directory = true) :
    StoreWf store' := by
  obtain ⟨hdir', hgrown, -⟩ := happend.spec
  refine ⟨names_of_grown hgrown hwf.names, ?_, ?_⟩
  · intro f' hf'
    obtain ⟨f, hf, -, hname, hheader, -⟩ := forall₂_grown_left hgrown hf'
    rw [hheader, hname, hwf.headers f hf]
  · intro hfalse
    rw [hdir', hdir] at hfalse
    cases hfalse

/-- The marks are still behind a store with one more frame. -/
theorem AppendsFrame.marksBehind {marks : List FollowSegment} (h : MarksBehind store marks) :
    MarksBehind store' marks := by
  obtain ⟨-, hgrown, -⟩ := happend.spec
  intro group m hm
  obtain ⟨f, hf, hgroup, hle, hend⟩ := h group m hm
  obtain ⟨f', hf', hgroup', hname, -, hcommitted⟩ := isNewest_of_grown hgrown hf
  refine ⟨f', hf', by rw [hgroup', hgroup], by rw [hname]; exact hle, ?_⟩
  intro heq
  rw [hname] at heq
  exact UInt64.le_trans (hend heq) hcommitted

/-- What an append adds lies behind the marks. -/
theorem AppendsFrame.entries (hwf : StoreWf store) (filter : List Bytes)
    {marks : List FollowSegment} (h : MarksBehind store marks) :
    ∃ new, (selectedEntries store' filter).Perm (selectedEntries store filter ++ new) ∧
      ∀ e ∈ new, afterMark marks e = true := by
  obtain ⟨-, -, f, frame, hnewest, hoffset, hentries⟩ := happend.spec
  refine ⟨_, hentries filter, ?_⟩
  intro e he
  split at he
  · obtain ⟨hgroup, hseq, -, hframe⟩ := mem_scanFrame he
    unfold afterMark
    cases hfind : findFollowSegment marks e.group with
    | none => rfl
    | some m =>
      obtain ⟨g, hg, hgg, hle, hend⟩ := h _ m hfind
      obtain rfl := hg.unique hwf hnewest (by rw [hgg, hgroup])
      rw [hseq, hframe, hwf.headers g hg.mem]
      by_cases heq : m.segmentSeq = g.nameSeq
      · have hcommitted := UInt64.le_trans (hend heq) hoffset
        simp [heq, hcommitted]
      · have hlt := UInt64.lt_of_le_of_ne hle heq
        simp [hlt]
  · cases he

end Append

section Rotate

variable {store store' : Store}

/-- Files with the same groups and entries have the same selected entries. -/
theorem flatMap_fileEntries_congr (filter : List Bytes) {files files' : List StoreFile}
    (h : List.Forall₂ (fun f f' => f'.group = f.group ∧ f'.fileEntries = f.fileEntries)
      files files') :
    (files'.filter fun f => groupAllowed filter f.group).flatMap StoreFile.fileEntries =
      (files.filter fun f => groupAllowed filter f.group).flatMap StoreFile.fileEntries := by
  induction h with
  | nil => rfl
  | cons h0 _ ih =>
    simp only [List.filter_cons, h0.1]
    split
    · rw [List.flatMap_cons, List.flatMap_cons, ih, h0.2]
    · exact ih

/-- The store after a rotation holds the same entries, and one segment more that is now the
newest of its group. -/
theorem Rotates.spec (h : Rotates store store') :
    ∃ n files', store'.directory = store.directory ∧ store'.files.Perm (n :: files') ∧
      List.Forall₂ Grown store.files files' ∧
      (∀ f ∈ store.files, f.group = n.group → f.nameSeq < n.nameSeq) ∧
      n.file.header.segmentSeq = n.nameSeq ∧
      ∀ filter, (selectedEntries store' filter).Perm (selectedEntries store filter) := by
  obtain ⟨n, files', hperm, hdir, hfiles, hlt, hheader, hframes, -⟩ := h
  refine ⟨n, files', hdir, hperm, ?_, hlt, hheader, ?_⟩
  · refine hfiles.imp ?_
    rintro f f' (rfl | ⟨-, -, hsealed⟩)
    · exact Grown.rfl
    · exact ⟨hsealed.group, hsealed.name, hsealed.header, hsealed.grown⟩
  · intro filter
    have hsame : (files'.filter fun f => groupAllowed filter f.group).flatMap
        StoreFile.fileEntries = selectedEntries store filter := by
      apply flatMap_fileEntries_congr filter (hfiles.imp ?_)
      rintro f f' (rfl | ⟨-, -, hsealed⟩)
      · exact ⟨rfl, rfl⟩
      · refine ⟨hsealed.group, ?_⟩
        unfold StoreFile.fileEntries
        rw [hsealed.group, hsealed.header, hsealed.frames]
    have hnew : n.fileEntries = [] := by
      unfold StoreFile.fileEntries
      rw [hframes]
      rfl
    rw [← hsame]
    unfold selectedEntries
    refine ((hperm.filter _).flatMap_right _).trans ?_
    rw [List.filter_cons]
    split
    · rw [List.flatMap_cons, hnew, List.nil_append]
    · exact List.Perm.refl _

/-- A store behind a rotation is well formed. -/
theorem Rotates.wf (hrotate : Rotates store store') (hwf : StoreWf store)
    (hdir : store.directory = true) : StoreWf store' := by
  obtain ⟨n, files', hdir', hperm, hgrown, hlt, hheader, -⟩ := hrotate.spec
  refine ⟨?_, ?_, ?_⟩
  · have hsymm : ∀ {f g : StoreFile}, (f.group = g.group → f.nameSeq ≠ g.nameSeq) →
        g.group = f.group → g.nameSeq ≠ f.nameSeq := fun h heq => (h heq.symm).symm
    rw [hperm.pairwise_iff hsymm, List.pairwise_cons]
    refine ⟨?_, names_of_grown hgrown hwf.names⟩
    intro g' hg' hgroup heq
    obtain ⟨g, hg, hgg, hname, -⟩ := forall₂_grown_left hgrown hg'
    have := hlt g hg (by rw [← hgg, ← hgroup])
    rw [heq, hname] at this
    exact UInt64.lt_irrefl _ this
  · intro f' hf'
    rcases List.mem_cons.mp (hperm.mem_iff.mp hf') with rfl | hmem
    · exact hheader
    · obtain ⟨f, hf, -, hname, hheader', -⟩ := forall₂_grown_left hgrown hmem
      rw [hheader', hname, hwf.headers f hf]
  · intro hfalse
    rw [hdir', hdir] at hfalse
    cases hfalse

/-- The marks are still behind a store that was rotated. -/
theorem Rotates.marksBehind (hrotate : Rotates store store') {marks : List FollowSegment}
    (h : MarksBehind store marks) : MarksBehind store' marks := by
  obtain ⟨n, files', -, hperm, hgrown, hlt, -⟩ := hrotate.spec
  intro group m hm
  obtain ⟨f, hf, hgroup, hle, hend⟩ := h group m hm
  by_cases hsame : f.group = n.group
  · -- the new segment of the group
    have hltn := hlt f hf.mem hsame
    have hmlt := UInt64.lt_of_le_of_lt hle hltn
    refine ⟨n, ⟨hperm.mem_iff.mpr (by simp), ?_⟩, by rw [← hsame, hgroup], UInt64.le_of_lt hmlt, ?_⟩
    · intro g' hg' hgg'
      rcases List.mem_cons.mp (hperm.mem_iff.mp hg') with rfl | hmem
      · exact UInt64.le_refl _
      · obtain ⟨g, hg, hgg, hname, -⟩ := forall₂_grown_left hgrown hmem
        rw [hname]
        exact UInt64.le_of_lt (hlt g hg (by rw [← hgg, hgg']))
    · intro heq
      rw [heq] at hmlt
      exact absurd hmlt (UInt64.lt_irrefl _)
  · obtain ⟨f', hf', hgroup', hname, -, hcommitted⟩ := forall₂_grown_right hgrown hf.mem
    refine ⟨f', ⟨hperm.mem_iff.mpr (by simp [hf']), ?_⟩, by rw [hgroup', hgroup],
      by rw [hname]; exact hle, ?_⟩
    · intro g' hg' hgg'
      rcases List.mem_cons.mp (hperm.mem_iff.mp hg') with rfl | hmem
      · exact absurd (hgroup'.symm.trans hgg'.symm) hsame
      · obtain ⟨g, hg, hgg, hgname, -⟩ := forall₂_grown_left hgrown hmem
        rw [hgname, hname]
        apply hf.le g hg
        rw [← hgg, hgg', hgroup']
    · intro heq
      rw [hname] at heq
      exact UInt64.le_trans (hend heq) hcommitted

end Rotate

/-! ## What a scan does to the marks -/

section MarksAtEnd

variable {store : Store} {filter : List Bytes} {marks marks' : List FollowSegment}

/-- A mark behind a scan is the one in front of it, or at the end of the newest segment. -/
theorem MarksAtEnd.find (hend : MarksAtEnd store filter marks marks') (group : Bytes) :
    findFollowSegment marks' group = findFollowSegment marks group ∨
      ∃ f, IsNewest store f ∧ f.group = group ∧
        findFollowSegment marks' group = some ⟨f.group, f.nameSeq, f.file.committedEnd⟩ := by
  by_cases hnone : ∀ f ∈ store.files, f.group = group → groupAllowed filter f.group = false
  · exact .inl (hend.other group hnone)
  · push Not at hnone
    obtain ⟨f, hf, rfl, hallowed⟩ := hnone
    obtain ⟨g, hg, hgg, -⟩ := exists_newest hf
    refine .inr ⟨g, hg, hgg, ?_⟩
    rw [← hgg]
    apply hend.newest g hg
    rw [hgg]
    simpa using hallowed

/-- Such marks are behind the store. -/
theorem MarksAtEnd.behind (hend : MarksAtEnd store filter marks marks')
    (h : MarksBehind store marks) : MarksBehind store marks' := by
  intro group m hm
  rcases hend.find group with hsame | ⟨f, hf, hgroup, hfind⟩
  · rw [hsame] at hm
    exact h group m hm
  · rw [hfind, Option.some.injEq] at hm
    subst hm
    exact ⟨f, hf, hgroup, UInt64.le_refl _, fun _ => UInt64.le_refl _⟩

/-- Marks only move forward. -/
theorem MarksAtEnd.mono (hend : MarksAtEnd store filter marks marks') (hwf : StoreWf store)
    (h : MarksBehind store marks) {e : StoredEntry} (he : afterMark marks' e = true) :
    afterMark marks e = true := by
  rcases hend.find e.group with hsame | ⟨f, hf, hgroup, hfind⟩
  · rw [← afterMark_congr hsame]
    exact he
  · unfold afterMark at he ⊢
    rw [hfind] at he
    cases hm : findFollowSegment marks e.group with
    | none => rfl
    | some m =>
      obtain ⟨g, hg, hgg, hle, hcommitted⟩ := h _ m hm
      obtain rfl := hg.unique hwf hf (by rw [hgg, hgroup])
      simp only [Bool.or_eq_true, Bool.and_eq_true, decide_eq_true_eq] at he ⊢
      rcases he with hlt | ⟨heq, hoff⟩
      · exact .inl (UInt64.lt_of_le_of_lt hle hlt)
      · by_cases hmeq : m.segmentSeq = g.nameSeq
        · exact .inr ⟨hmeq.trans heq, UInt64.le_trans (hcommitted hmeq) hoff⟩
        · rw [← heq]
          exact .inl (UInt64.lt_of_le_of_ne hle hmeq)

/-- After a scan nothing that is stored lies behind the marks. -/
theorem MarksAtEnd.afterMark_eq_false (hend : MarksAtEnd store filter marks marks')
    (hwf : StoreWf store) {e : StoredEntry} (he : e ∈ selectedEntries store filter) :
    afterMark marks' e = false := by
  obtain ⟨f, hf, hef⟩ := List.mem_flatMap.mp he
  obtain ⟨hmem, hallowed⟩ := List.mem_filter.mp hf
  obtain ⟨g, hg, hgg, -⟩ := exists_newest hmem
  obtain ⟨hgroup, hseq, -, frame, hframe, hoff⟩ := mem_fileEntries hef
  have hfind := hend.newest g hg (by rw [hgg]; exact hallowed)
  unfold afterMark
  rw [hgroup, ← hgg, hfind, hseq, hwf.headers f hmem]
  have hle := hg.le f hmem hgg.symm
  have hnot : ¬ g.nameSeq < f.nameSeq := UInt64.not_lt.mpr hle
  by_cases heq : g.nameSeq = f.nameSeq
  · have hnewest : IsNewest store f := by
      refine ⟨hmem, ?_⟩
      intro x hx hxg
      rw [← heq]
      exact hg.le x hx (by rw [hxg, hgg])
    obtain rfl := hg.unique hwf hnewest hgg
    have hlt := g.file.offset_lt_end frame hframe
    rw [hoff]
    simp [UInt64.not_le.mpr hlt, UInt64.lt_irrefl]
  · simp [hnot, heq]

end MarksAtEnd

/-! ## The start -/

section Start

variable {store : Store} {filter : List Bytes}

/-- No marks are behind every store. -/
theorem marksBehind_nil (store : Store) : MarksBehind store [] := by
  intro group m hm
  cases hm

/-- A mark at the end of the newest segment is behind the store. -/
theorem marksBehind_remember (hwf : StoreWf store) {marks : List FollowSegment}
    (h : MarksBehind store marks) {path : SegmentPath} (hpath : IsNewest store path.file)
    (hseq : path.segmentSeq = path.file.nameSeq) :
    MarksBehind store (rememberFollowSegment marks path path.file.file.committedEnd) := by
  intro group m hm
  by_cases hsame : path.file.group = group
  · subst hsame
    rw [findFollowSegment_remember_self, Option.some.injEq] at hm
    · subst hm
      refine ⟨path.file, hpath, rfl, ?_, fun _ => UInt64.le_refl _⟩
      rw [hseq]
      exact UInt64.le_refl _
    · intro m' hm'
      obtain ⟨g, hg, hgg, hle, -⟩ := h _ m' hm'
      rw [hg.unique hwf hpath hgg] at hle
      rw [hseq]
      exact hle
  · rw [findFollowSegment_remember_ne hsame] at hm
    exact h group m hm

/-- The marks of `initialize_tail_follow` do not point behind the newest segments. -/
theorem initializeTailFollow_marksBehind (hwf : StoreWf store) (hdir : store.directory = true) :
    MarksBehind store (initializeTailFollow store filter {}).segments := by
  have hfold : ∀ (paths : List SegmentPath) (marks : List FollowSegment),
      (∀ p ∈ paths, IsNewest store p.file ∧ p.segmentSeq = p.file.nameSeq) →
      MarksBehind store marks →
      MarksBehind store (paths.foldl (fun marks path =>
        rememberFollowSegment marks path path.file.file.committedEnd) marks) := by
    intro paths
    induction paths with
    | nil => exact fun _ _ h => h
    | cons path rest ih =>
      intro marks hpaths hbehind
      obtain ⟨hnewest, hseq⟩ := hpaths path (by simp)
      exact ih _ (fun p hp => hpaths p (by simp [hp]))
        (marksBehind_remember hwf hbehind hnewest hseq)
  apply hfold _ _ ?_ (marksBehind_nil store)
  intro p hp
  obtain ⟨hnewest, -, hseq⟩ := (mem_collectLatest hwf hdir).mp ((sortPaths_perm _).mem_iff.mp hp)
  exact ⟨hnewest, hseq⟩

/-- So do the marks of a first scan. -/
theorem scanFollow_first (hwf : StoreWf store) (hdir : store.directory = true) {n : ℕ}
    {entries : List StoredEntry} {st : FollowState}
    (h : scanFollow store filter (fun _ => none) n {} = (0, entries, st)) :
    st.initialized = true ∧ MarksBehind store st.segments := by
  obtain ⟨marks', hloop, hend⟩ := followLoop_latest filter hwf hdir (marksBehind_nil store)
  simp only [scanFollow, Bool.and_false, if_false, Bool.false_eq_true, hloop] at h
  split at h
  · cases h
  · rw [Prod.mk.injEq, Prod.mk.injEq] at h
    obtain ⟨-, -, rfl⟩ := h
    exact ⟨rfl, hend.behind (marksBehind_nil store)⟩

end Start

/-! ## Every run -/

/-- What holds after any number of steps: the marks do not point behind the newest segments
and never went back, and what lies between them and the first marks was delivered once. -/
structure FollowInv (filter : List Bytes) (w₀ w : FollowWorld) : Prop where
  wf : StoreWf w.store
  directory : w.store.directory = true
  initialized : w.follow.initialized = true
  behind : MarksBehind w.store w.follow.segments
  mono : ∀ e, afterMark w.follow.segments e = true → afterMark w₀.follow.segments e = true
  once : DeliveredOnce filter w₀ w

/-- The invariant at the start. -/
theorem FollowStarted.inv {filter : List Bytes} {w : FollowWorld} (h : FollowStarted filter w) :
    FollowInv filter w w := by
  have hmarks : w.follow.initialized = true ∧ MarksBehind w.store w.follow.segments := by
    rcases h.started with htail | ⟨n, entries, hscan⟩
    · rw [htail]
      exact ⟨rfl, initializeTailFollow_marksBehind h.wf h.directory⟩
    · exact scanFollow_first h.wf h.directory hscan
  refine ⟨h.wf, h.directory, hmarks.1, hmarks.2, fun _ h => h, ?_⟩
  unfold DeliveredOnce
  rw [h.delivered]
  simp

section Inv

variable {filter : List Bytes} {w₀ w : FollowWorld}

/-- The invariant only depends on the entries of the store up to order. -/
theorem FollowInv.append {store' : Store} {events : List FollowEvent}
    (h : FollowInv filter w₀ w) (happend : AppendsFrame w.store store') :
    FollowInv filter w₀ { w with store := store', events := events } := by
  obtain ⟨new, hperm, hnew⟩ := happend.entries h.wf filter h.behind
  refine ⟨happend.wf h.wf h.directory, by rw [← h.directory]; exact happend.spec.1, h.initialized,
    happend.marksBehind h.behind, h.mono, ?_⟩
  unfold DeliveredOnce
  refine h.once.trans ((hperm.filter _).trans ?_).symm
  rw [List.filter_append]
  have hnil : (new.filter fun e =>
      afterMark w₀.follow.segments e && !afterMark w.follow.segments e) = [] := by
    rw [List.filter_eq_nil_iff]
    intro e he
    simp [hnew e he]
  rw [hnil, List.append_nil]

/-- A rotation keeps the invariant. -/
theorem FollowInv.rotate {store' : Store} {events : List FollowEvent}
    (h : FollowInv filter w₀ w) (hrotate : Rotates w.store store') :
    FollowInv filter w₀ { w with store := store', events := events } := by
  obtain ⟨n, files', hdir, -, -, -, -, hentries⟩ := hrotate.spec
  refine ⟨hrotate.wf h.wf h.directory, by rw [← h.directory]; exact hdir, h.initialized,
    hrotate.marksBehind h.behind, h.mono, ?_⟩
  exact h.once.trans ((hentries filter).filter _).symm

/-- `rec_player_process` keeps the invariant. -/
theorem FollowInv.process {watching : Bool} {events : List FollowEvent}
    (h : FollowInv filter w₀ w) :
    FollowInv filter w₀
      { w with events := events, follow := (recPlayerProcess watching w.events w.follow).2 } := by
  have hsegments : (recPlayerProcess watching w.events w.follow).2.segments =
      w.follow.segments := by
    unfold recPlayerProcess
    split <;> rfl
  have hinit : (recPlayerProcess watching w.events w.follow).2.initialized =
      w.follow.initialized := by
    unfold recPlayerProcess
    split <;> rfl
  refine ⟨h.wf, h.directory, hinit.trans h.initialized, ?_, ?_, ?_⟩
  · simp only [hsegments]
    exact h.behind
  · simp only [hsegments]
    exact h.mono
  · unfold DeliveredOnce
    simp only [hsegments]
    exact h.once

/-- A scan that sees all there is keeps the invariant. -/
theorem FollowInv.scan {n : ℕ} {entries : List StoredEntry} {st : FollowState}
    (h : FollowInv filter w₀ w) (hsees : SeesAll filter w)
    (hscan : scanFollow w.store filter (fun _ => none) n w.follow = (0, entries, st)) :
    FollowInv filter w₀ { w with follow := st, delivered := w.delivered ++ entries } := by
  obtain ⟨entries', marks', hspec, hend, hperm⟩ :=
    scanFollow_spec filter h.wf h.directory n h.initialized h.behind
  rw [hspec, Prod.mk.injEq, Prod.mk.injEq] at hscan
  obtain ⟨-, rfl, rfl⟩ := hscan
  refine ⟨h.wf, h.directory, h.initialized, hend.behind h.behind,
    fun e he => h.mono e (hend.mono h.wf h.behind he), ?_⟩
  unfold DeliveredOnce
  -- everything stored is now in front of the marks
  have hafter : ((selectedEntries w.store filter).filter fun e =>
      afterMark w₀.follow.segments e && !afterMark marks' e) =
      (selectedEntries w.store filter).filter fun e => afterMark w₀.follow.segments e := by
    apply List.filter_congr
    intro e he
    rw [hend.afterMark_eq_false h.wf he]
    simp
  have hnew : ((selectedEntries w.store filter).filter fun e =>
      afterMark w₀.follow.segments e && afterMark w.follow.segments e) =
      (selectedEntries w.store filter).filter (afterMark w.follow.segments) := by
    apply List.filter_congr
    intro e _
    cases hm : afterMark w.follow.segments e with
    | false => simp
    | true => simp [h.mono e hm]
  rw [hafter]
  refine (h.once.append (hperm hsees)).trans ?_
  rw [← hnew]
  have hsplit := List.filter_append_perm (fun e => !afterMark w.follow.segments e)
    ((selectedEntries w.store filter).filter fun e => afterMark w₀.follow.segments e)
  simp only [List.filter_filter, Bool.not_not] at hsplit
  simpa only [Bool.and_comm] using hsplit

/-- **One step keeps the invariant.** -/
theorem FollowInv.step {w' : FollowWorld} (h : FollowInv filter w₀ w)
    (hstep : FollowStep filter (SeesAll filter) w w') : FollowInv filter w₀ w' := by
  cases hstep with
  | append store' happend => exact h.append happend
  | rotate store' hrotate => exact h.rotate hrotate
  | process watching => exact h.process
  | scan n entries st hsees hscan => exact h.scan hsees hscan

end Inv

/-- **Following delivers each entry once**, in every run in which each scan looks at the whole
directory or finds everything behind its marks in the newest segments. -/
theorem follow_delivers_once (filter : List Bytes) (w₀ w : FollowWorld)
    (hstart : FollowStarted filter w₀)
    (hrun : Relation.ReflTransGen (FollowStep filter (SeesAll filter)) w₀ w) :
    DeliveredOnce filter w₀ w := by
  have hinv : FollowInv filter w₀ w := by
    induction hrun with
    | refl => exact hstart.inv
    | tail _ hstep ih => exact ih.step hstep
  exact hinv.once

/-! ## A rotation between two scans -/

/-- A segment of group `a` with at most one frame. -/
def growingSegment (seq : UInt64) (filled sealed : Bool) : StoreFile where
  group := [97]
  nameSeq := seq
  file :=
    { header :=
        { flags := 0, segmentSeq := seq, bootSeq := 0, bootId := [], timezone := []
          firstRealtimeTs := 0, firstMonotonicTs := 0, dictLen := 0 }
      frames := bif filled then [⟨252, [⟨1, 1, 0, none⟩], length_singleton_lt _ _⟩]
        else []
      footer := bif sealed then some ⟨0, 0, 1, 1, 1, true⟩ else none
      index := none
      committedEnd := bif filled then bif sealed then 336 else 300 else 252
      offsets_lt := by
        cases filled
        · exact List.Pairwise.nil
        · exact List.pairwise_singleton _ _
      offset_lt_end := by
        intro frame hframe
        cases filled with
        | false => cases hframe
        | true =>
          rw [List.mem_singleton.mp hframe]
          cases sealed <;> decide
      length_lt := by
        cases filled
        · exact Nat.two_pow_pos _
        · exact length_singleton_lt _ _ }

/-- One segment, without a frame and with one. -/
def growingStore (filled : Bool) : Store where
  directory := true
  files := [growingSegment 1 filled false]
  length_lt := by
    rw [List.length_singleton]
    omega

/-- The segment with its footer, and the next one. -/
def rotatedStore : Store where
  directory := true
  files := [growingSegment 1 true true, growingSegment 2 false false]
  length_lt := length_pair_lt _ _ _

/-- The only segment is the newest. -/
theorem isNewest_growing (filled : Bool) :
    IsNewest (growingStore filled) (growingSegment 1 filled false) := by
  refine ⟨List.mem_singleton.mpr rfl, ?_⟩
  intro g hg _
  rw [List.mem_singleton.mp hg]
  exact UInt64.le_refl _

/-- A frame is appended to the segment. -/
theorem growingStore_appends : AppendsFrame (growingStore false) (growingStore true) :=
  ⟨[], growingSegment 1 false false, [], growingSegment 1 true false,
    ⟨252, [⟨1, 1, 0, none⟩], length_singleton_lt _ _⟩, rfl, rfl, rfl,
    isNewest_growing false, rfl, rfl, rfl, rfl, rfl, rfl, UInt64.le_refl _⟩

/-- The segment is rotated. -/
theorem growingStore_rotates : Rotates (growingStore true) rotatedStore := by
  refine ⟨growingSegment 2 false false, [growingSegment 1 true true], List.Perm.swap _ _ _, rfl,
    .cons (.inr ⟨isNewest_growing true, rfl, rfl, rfl, rfl, rfl, rfl, by decide⟩) .nil, ?_, rfl,
    rfl, rfl⟩
  intro f hf _
  rw [List.mem_singleton.mp hf]
  decide

/-- The reader starts behind an empty segment. -/
def tailWorld : FollowWorld where
  store := growingStore false
  events := []
  follow := initializeTailFollow (growingStore false) [] {}
  delivered := []

/-- A frame was appended and the segment rotated. -/
def rotatedWorld : FollowWorld :=
  { tailWorld with store := rotatedStore, events := [.modify, .modify, .create] }

/-- The reader has taken notice. -/
def processedWorld : FollowWorld :=
  { rotatedWorld with
    events := [], follow := (recPlayerProcess true rotatedWorld.events rotatedWorld.follow).2 }

/-- The state after a scan. -/
def scannedWorld (w : FollowWorld) : FollowWorld :=
  { w with
    follow := (scanFollow w.store [] (fun _ => none) 0 w.follow).2.2
    delivered := w.delivered ++ (scanFollow w.store [] (fun _ => none) 0 w.follow).2.1 }

/-- The run starts at the tail. -/
theorem tailWorld_started : FollowStarted [] tailWorld where
  wf := by
    refine ⟨List.pairwise_singleton _ _, ?_, ?_⟩
    · intro f hf
      rw [List.mem_singleton.mp hf]
      rfl
    · intro h
      cases h
  directory := rfl
  started := .inl rfl
  delivered := rfl

/-- The appended frame and the rotation are steps. -/
theorem tailWorld_rotated (allowed : FollowWorld → Prop) :
    Relation.ReflTransGen (FollowStep [] allowed) tailWorld rotatedWorld :=
  (Relation.ReflTransGen.single (.append tailWorld _ growingStore_appends)).tail
    (.rotate { tailWorld with store := growingStore true, events := [.modify] } _
      growingStore_rotates)

/-- A scan that succeeds is a step. -/
theorem scannedWorld_step (w : FollowWorld) (allowed : FollowWorld → Prop) (h : allowed w)
    (hscan : (scanFollow w.store [] (fun _ => none) 0 w.follow).1 = 0) :
    FollowStep [] allowed w (scannedWorld w) := by
  apply FollowStep.scan w 0 _ _ h
  rw [← hscan]

/-- With the events taken up in front of the scan the frame is delivered. -/
theorem processedWorld_delivers :
    FollowStarted [] tailWorld ∧
      Relation.ReflTransGen (FollowStep [] (SeesAll [])) tailWorld (scannedWorld processedWorld) ∧
      (scannedWorld processedWorld).delivered.length = 1 ∧
      DeliveredOnce [] tailWorld (scannedWorld processedWorld) := by
  have hrun : Relation.ReflTransGen (FollowStep [] (SeesAll [])) tailWorld
      (scannedWorld processedWorld) :=
    ((tailWorld_rotated _).tail (.process rotatedWorld true)).tail
      (scannedWorld_step processedWorld _ (.inl (by decide)) (by decide))
  exact ⟨tailWorld_started, hrun, by decide, follow_delivers_once [] _ _ tailWorld_started hrun⟩

/-- A scan between the rotation and the call that notices it moves the mark into the new
segment. The entry in the old one was not delivered and is in front of the mark. -/
theorem rotatedStore_entry_lost :
    FollowStarted [] tailWorld ∧
      Relation.ReflTransGen (FollowStep [] fun _ => True) tailWorld (scannedWorld rotatedWorld) ∧
      ¬ DeliveredOnce [] tailWorld (scannedWorld rotatedWorld) := by
  refine ⟨tailWorld_started, (tailWorld_rotated _).tail
    (scannedWorld_step rotatedWorld _ trivial (by decide)), ?_⟩
  intro h
  have hlen := h.length_eq
  revert hlen
  decide

end Recorder.Analysis
