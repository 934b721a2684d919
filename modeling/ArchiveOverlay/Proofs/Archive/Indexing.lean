import ArchiveOverlay.Proofs.Archive.Exchange
import ArchiveOverlay.Proofs.Path.Climbing

namespace ArchiveOverlay

/-- What there is to complain about a file that comes after others. -/
inductive RawEntry.Refused (id : ArchiveId) (earlier : List RawEntry) (raw : RawEntry) :
    Error → Prop
  | unreadable {fault : PathFault} : DisplayPath.parse raw.name = .error fault →
      Refused id earlier raw (.invalidPath raw.name fault)
  | root {display : DisplayPath} : DisplayPath.parse raw.name = .ok display →
      display.segments = [] → Refused id earlier raw (.invalidPath raw.name .root)
  | repeated {display : DisplayPath} {other : RawEntry} :
      DisplayPath.parse raw.name = .ok display → display.segments ≠ [] → other ∈ earlier →
      Path.parse other.name = Path.parse raw.name →
      Refused id earlier raw (.duplicateEntry id display.text)

namespace Archive

/-- That there is nothing to complain about any of the files where it stands. -/
def Accepted (id : ArchiveId) (raws : List RawEntry) : Prop :=
  ∀ front raw back e, raws = front ++ raw :: back → ¬ raw.Refused id front e

section

variable {id : ArchiveId} {raws : List RawEntry} {raw : RawEntry}
  {entries : List Entry} {e : Error}

theorem parse_of_indexed {entry : Entry} (h : raw.Indexed entry) :
    Path.parse raw.name = .ok entry.path := by
  rw [entry.path_eq]
  exact Path.parse_eq_ok_iff.mpr ⟨_, h.parse, rfl⟩

/-- A path is taken already if it is that of an earlier file. -/
theorem any_path_iff (h : List.Forall₂ RawEntry.Indexed raws entries) (path : Path) :
    (entries.any fun entry => decide (entry.path = path)) = true ↔
      ∃ other ∈ raws, Path.parse other.name = .ok path := by
  rw [List.any_eq_true]
  constructor
  · rintro ⟨entry, hentry, hpath⟩
    obtain ⟨other, hother, hindexed⟩ := exists_of_mem_right h hentry
    rw [← of_decide_eq_true hpath]
    exact ⟨other, hother, parse_of_indexed hindexed⟩
  · rintro ⟨other, hother, hparse⟩
    obtain ⟨entry, hentry, hindexed⟩ := exists_of_mem_right h.flip hother
    refine ⟨entry, hentry, decide_eq_true ?_⟩
    exact Except.ok.inj ((parse_of_indexed hindexed).symm.trans hparse)

theorem addEntry_error_iff (h : List.Forall₂ RawEntry.Indexed raws entries) :
    addEntry id entries raw = .error e ↔ raw.Refused id raws e := by
  have hpath : ∀ display, DisplayPath.parse raw.name = .ok display →
      Path.parse raw.name = .ok (.ofDisplay display) := fun display hparse =>
    Path.parse_eq_ok_iff.mpr ⟨display, hparse, rfl⟩
  constructor
  · intro hadd
    unfold addEntry at hadd
    split at hadd
    next fault hparse =>
      cases hadd
      exact .unreadable hparse
    next display hparse =>
      split at hadd
      next hroot =>
        cases hadd
        exact .root hparse (List.isEmpty_iff.mp hroot)
      next hroot =>
        dsimp only at hadd
        split at hadd
        next htaken =>
          cases hadd
          obtain ⟨other, hother, hsame⟩ := (any_path_iff h _).mp htaken
          exact .repeated hparse (by simpa using hroot) hother
            (hsame.trans (hpath display hparse).symm)
        next => cases hadd
  · intro hrefused
    cases hrefused with
    | unreadable hparse => rw [addEntry, hparse]
    | root hparse hsegments =>
        rw [addEntry, hparse]
        simp [hsegments]
    | @repeated display other hparse hsegments hother hsame =>
        have htaken := (any_path_iff h _).mpr ⟨other, hother, hsame.trans (hpath display hparse)⟩
        rw [addEntry, hparse]
        simp only [List.isEmpty_iff, if_neg hsegments, if_pos htaken]

theorem exists_addEntry_iff (h : List.Forall₂ RawEntry.Indexed raws entries) :
    (∃ entries', addEntry id entries raw = .ok entries') ↔ ∀ e, ¬ raw.Refused id raws e := by
  simp only [← addEntry_error_iff h]
  cases addEntry id entries raw with
  | error e => simp
  | ok entries' => simp

theorem accepted_concat :
    Accepted id (raws ++ [raw]) ↔ Accepted id raws ∧ ∀ e, ¬ raw.Refused id raws e := by
  constructor
  · intro h
    constructor
    · intro front other back e hraws
      exact h front other (back ++ [raw]) e (by rw [hraws, List.append_assoc, List.cons_append])
    · intro e
      exact h raws raw [] e rfl
  · rintro ⟨hraws, hlast⟩ front other back e hsplit
    rcases List.eq_nil_or_concat' back with rfl | ⟨back, last, rfl⟩
    · obtain ⟨rfl, hsame⟩ := List.append_inj' hsplit rfl
      cases hsame
      exact hlast e
    · rw [← List.cons_append, ← List.append_assoc] at hsplit
      obtain ⟨hbefore, -⟩ := List.append_inj' hsplit rfl
      exact hraws front other back e hbefore

/-- Files are taken in as long as there is nothing to complain about. -/
theorem exists_indexEntries_iff :
    (∃ entries, indexEntries id raws = .ok entries) ↔ Accepted id raws := by
  induction raws using List.reverseRecOn with
  | nil =>
      refine ⟨fun _ front raw back e hsplit => ?_, fun _ => ⟨[], rfl⟩⟩
      simp at hsplit
  | append_singleton raws last ih =>
      rw [accepted_concat, ← ih, indexEntries_concat]
      cases hbefore : indexEntries id raws with
      | error e => simp [Except.bind]
      | ok entries =>
          rw [← exists_addEntry_iff (indexEntries_forall₂ hbefore)]
          simp [Except.bind]

/-- The complaint is the one about the first file that does not fit. -/
theorem indexEntries_error_iff :
    indexEntries id raws = .error e ↔
      ∃ front raw back, raws = front ++ raw :: back ∧ Accepted id front ∧
        raw.Refused id front e := by
  constructor
  · intro h
    induction raws using List.reverseRecOn with
    | nil => cases h
    | append_singleton raws last ih =>
        rw [indexEntries_concat] at h
        cases hbefore : indexEntries id raws with
        | error e' =>
            rw [hbefore] at h
            cases h
            obtain ⟨front, raw, back, rfl, hfront, hraw⟩ := ih hbefore
            exact ⟨front, raw, back ++ [last], by simp, hfront, hraw⟩
        | ok entries =>
            rw [hbefore] at h
            exact ⟨raws, last, [], rfl, exists_indexEntries_iff.mp ⟨entries, hbefore⟩,
              (addEntry_error_iff (indexEntries_forall₂ hbefore)).mp h⟩
  · rintro ⟨front, raw, back, rfl, hfront, hraw⟩
    obtain ⟨entries, hentries⟩ := exists_indexEntries_iff.mpr hfront
    have hadd := (addEntry_error_iff (indexEntries_forall₂ hentries)).mpr hraw
    rw [indexEntries] at hentries
    rw [indexEntries, List.foldlM_append, hentries]
    change (raw :: back).foldlM (addEntry id) entries = _
    rw [List.foldlM_cons, hadd]
    rfl

theorem not_refused_iff :
    (∀ e, ¬ raw.Refused id raws e) ↔
      (∃ p, DisplayPath.parse raw.name = .ok p ∧ p.segments ≠ []) ∧
        ∀ other ∈ raws, Path.parse other.name ≠ Path.parse raw.name := by
  constructor
  · intro h
    cases hparse : DisplayPath.parse raw.name with
    | error fault => exact absurd (.unreadable hparse) (h _)
    | ok display =>
        have hsegments : display.segments ≠ [] := fun hroot => h _ (.root hparse hroot)
        exact ⟨⟨display, rfl, hsegments⟩, fun other hother hsame =>
          h _ (.repeated hparse hsegments hother hsame)⟩
  · rintro ⟨⟨display, hparse, hsegments⟩, hnew⟩ e hrefused
    cases hrefused with
    | unreadable hfault =>
        rw [hparse] at hfault
        cases hfault
    | root hroot hnone =>
        rw [hparse] at hroot
        cases hroot
        exact hsegments hnone
    | repeated _ _ hother hsame => exact hnew _ hother hsame

theorem accepted_iff :
    Accepted id raws ↔
      (∀ raw ∈ raws, ∃ p, DisplayPath.parse raw.name = .ok p ∧ p.segments ≠ []) ∧
        raws.Pairwise fun raw other => Path.parse raw.name ≠ Path.parse other.name := by
  induction raws using List.reverseRecOn with
  | nil =>
      refine ⟨fun _ => ⟨by simp, .nil⟩, fun _ front raw back e hsplit => ?_⟩
      simp at hsplit
  | append_singleton raws last ih =>
      rw [accepted_concat, ih, not_refused_iff, List.pairwise_append]
      simp only [List.mem_append, List.mem_singleton, List.pairwise_singleton, true_and]
      constructor
      · rintro ⟨⟨hpaths, hapart⟩, hlast, hnew⟩
        refine ⟨?_, hapart, ?_⟩
        · rintro raw (hraw | rfl)
          · exact hpaths raw hraw
          · exact hlast
        · rintro raw hraw other rfl
          exact hnew raw hraw
      · rintro ⟨hpaths, hapart, hnew⟩
        exact ⟨⟨fun raw hraw => hpaths raw (.inl hraw), hapart⟩, hpaths last (.inr rfl),
          fun other hother => hnew other hother last rfl⟩

end

theorem build_error_iff {id : ArchiveId} {backing : Backing} {raws : List RawEntry} {e : Error} :
    build id backing raws = .error e ↔ indexEntries id raws = .error e := by
  unfold build
  split
  next fault hindex => simp [hindex]
  next entries hindex => simp [hindex]

theorem exists_build_iff_accepted {id : ArchiveId} {backing : Backing} {raws : List RawEntry} :
    (∃ a, build id backing raws = .ok a) ↔ Accepted id raws := by
  rw [← exists_indexEntries_iff]
  constructor
  · rintro ⟨a, ha⟩
    cases hindex : indexEntries id raws with
    | error e =>
        rw [build_error_iff.mpr hindex] at ha
        cases ha
    | ok entries => exact ⟨entries, rfl⟩
  · rintro ⟨entries, hindex⟩
    obtain ⟨a, ha, -⟩ := build_of_indexEntries hindex backing
    exact ⟨a, ha⟩

/-- That two archives give the same answer to every question, and list their entries in some
order. -/
structure AnswersLike (a b : Archive) : Prop where
  id : a.id = b.id
  backing : a.backing = b.backing
  entries : a.entries.Perm b.entries
  totalBytes : a.totalBytes = b.totalBytes
  find? : ∀ path, a.find? path = b.find? path
  contains : ∀ path, a.contains path = b.contains path
  children? : ∀ dir, a.children? dir = b.children? dir
  isDirectory : ∀ dir, a.isDirectory dir = b.isDirectory dir
  child? : ∀ dir key, a.child? dir key = b.child? dir key
  source : ∀ d handle, a.source d handle = b.source d handle

variable {a b : Archive}

theorem find?_eq_some_iff {path : Path} {e : Entry} :
    a.find? path = some e ↔ e ∈ a.entries ∧ e.path = path := by
  constructor
  · exact find?_some
  · rintro ⟨he, rfl⟩
    obtain ⟨found, hfound⟩ : ∃ found, a.find? e.path = some found := by
      rw [← Option.isSome_iff_exists]
      exact contains_iff.mpr ⟨e, he, rfl⟩
    obtain ⟨hmem, hpath⟩ := find?_some hfound
    rw [hfound, a.eq_of_path_eq hmem he hpath]

/-- The order of the entries is nothing that can be asked for. -/
theorem answersLike_of_perm (hid : a.id = b.id) (hbacking : a.backing = b.backing)
    (hentries : a.entries.Perm b.entries) : AnswersLike a b := by
  have hfiles : SameFiles a b := hentries.map Entry.facts
  have hfind : ∀ path, a.find? path = b.find? path := by
    intro path
    apply Option.ext
    intro e
    rw [find?_eq_some_iff, find?_eq_some_iff, hentries.mem_iff]
  exact ⟨hid, hbacking, hentries, hfiles.totalBytes, hfind, hfiles.contains, hfiles.children?,
    fun dir => isDirectory_congr (hfiles.children? dir),
    fun dir => child?_congr (hfiles.children? dir),
    fun d handle => by rw [a.source_eq, b.source_eq, hid, hbacking]⟩

end Archive

theorem error_of_mapM {α β : Type} {f : α → Except Error β} {xs : List α} {e : Error}
    (h : xs.mapM f = .error e) : ∃ x ∈ xs, f x = .error e := by
  induction xs with
  | nil => cases h
  | cons x xs ih =>
      rw [List.mapM_cons] at h
      cases hx : f x with
      | error e' =>
          rw [hx] at h
          cases h
          exact ⟨x, by simp, hx⟩
      | ok y =>
          rw [hx] at h
          cases hxs : xs.mapM f with
          | error e' =>
              rw [hxs] at h
              cases h
              obtain ⟨other, hother, hfault⟩ := ih hxs
              exact ⟨other, by simp [hother], hfault⟩
          | ok ys =>
              rw [hxs] at h
              cases h

theorem openContainer_ne_invalidPath (reader : ContainerReader) (d : Disk) (path name : String)
    (fault : PathFault) : openContainer reader d path ≠ .error (.invalidPath name fault) := by
  rw [openContainer]
  split
  · simp
  · split <;> simp
  · simp

theorem OpenContainer.source_ne_invalidPath (opened : OpenContainer) (d : Disk) (id : ArchiveId)
    (handle : Nat) (name : String) (fault : PathFault) :
    opened.source d id handle ≠ .error (.invalidPath name fault) := by
  rw [OpenContainer.source]
  split
  · simp
  · split <;> simp

theorem OpenContainer.enumerate?_ne_invalidPath (opened : OpenContainer) (d : Disk)
    (id : ArchiveId) (member : ContainerMember) (handle : Nat) (name : String)
    (fault : PathFault) :
    opened.enumerate? d id member handle ≠ .error (.invalidPath name fault) := by
  have hsource := opened.source_ne_invalidPath d id handle name fault
  simp only [enumerate?, bind, Except.bind]
  cases hread : opened.source d id handle with
  | error e =>
      rw [hread] at hsource
      simpa using hsource
  | ok source =>
      dsimp only
      split
      · simp [pure, Except.pure]
      · split
        · simp [pure, Except.pure]
        · split
          · simp [pure, Except.pure]
          · split
            · simp [throw, throwThe, MonadExceptOf.throw]
            · simp [pure, Except.pure]

/-- Members whose names are no paths of files are passed over before the archive is built. -/
theorem loadContainer_ne_invalidPath (reader : ContainerReader) (d : Disk) (path name : String)
    (fault : PathFault) : loadContainer reader d path ≠ .error (.invalidPath name fault) := by
  intro hload
  simp only [loadContainer, bind, Except.bind] at hload
  cases hopen : openContainer reader d path with
  | error e =>
      rw [hopen] at hload
      cases hload
      exact openContainer_ne_invalidPath reader d path name fault hopen
  | ok opened =>
      rw [hopen] at hload
      dsimp only at hload
      split at hload
      next e hraws =>
        cases hload
        obtain ⟨⟨member, handle⟩, -, hmember⟩ := error_of_mapM hraws
        exact opened.enumerate?_ne_invalidPath d _ member handle name fault hmember
      next raws hraws =>
        rw [Archive.build_error_iff, Archive.indexEntries_error_iff] at hload
        obtain ⟨front, raw, back, hsplit, -, hrefused⟩ := hload
        have hmem : raw ∈ raws.filterMap fun entry => entry := by simp [hsplit]
        obtain ⟨⟨member, handle⟩, -, hentry⟩ := (mem_filterMap_of_mapM hraws raw).mp hmem
        obtain ⟨source, -, -, hraw⟩ := ArchiveOrigin.enumerate?_ok hentry
        obtain ⟨-, ⟨display, hparse, hsegments⟩, rfl⟩ := (hraw raw).mp rfl
        cases hrefused with
        | unreadable hfault =>
            rw [hparse] at hfault
            cases hfault
        | root hroot hnone =>
            rw [hparse] at hroot
            cases hroot
            exact hsegments hnone

namespace Archive

variable {id : ArchiveId}

/-- How far the sum of the sizes goes: to the first file that is complained about, or to the
last. -/
theorem sumFits_iff {earlier raws : List RawEntry} {entries : List Entry}
    (h : indexEntries id earlier = .ok entries) :
    sumFits id entries ((earlier.map RawEntry.size).sum) raws = true ↔
      ∀ front, front ≠ [] → front <+: raws → Accepted id (earlier ++ front) →
        ((earlier ++ front).map RawEntry.size).sum < UInt64.size := by
  induction raws generalizing earlier entries with
  | nil =>
      refine iff_of_true rfl fun front hne hbegins => ?_
      exact absurd (List.prefix_nil.mp hbegins) hne
  | cons raw raws ih =>
      have hnext : indexEntries id (earlier ++ [raw]) = addEntry id entries raw := by
        rw [indexEntries_concat, h]
        rfl
      rw [sumFits]
      cases hadd : addEntry id entries raw with
      | error e =>
          -- With a complaint about the next file no longer front is taken in.
          refine iff_of_true rfl fun front hne hbegins haccepted => ?_
          obtain ⟨more, rfl⟩ : ∃ more, front = raw :: more := by
            cases front with
            | nil => exact absurd rfl hne
            | cons first more => exact ⟨more, by rw [(List.cons_prefix_cons.mp hbegins).1]⟩
          have hrefused := (addEntry_error_iff (indexEntries_forall₂ h)).mp hadd
          exact absurd hrefused (haccepted earlier raw more e rfl)
      | ok entries' =>
          have hsum : ((earlier ++ [raw]).map RawEntry.size).sum =
              (earlier.map RawEntry.size).sum + raw.size := by simp
          have hrest := ih (hnext.trans hadd)
          rw [hsum] at hrest
          have haccepted : Accepted id (earlier ++ [raw]) :=
            exists_indexEntries_iff.mp ⟨entries', hnext.trans hadd⟩
          simp only [Bool.and_eq_true, decide_eq_true_eq, hrest]
          constructor
          · rintro ⟨hfirst, hmore⟩ front hne hbegins hfront
            cases front with
            | nil => exact absurd rfl hne
            | cons first front =>
                obtain ⟨rfl, hshorter⟩ := List.cons_prefix_cons.mp hbegins
                by_cases hlast : front = []
                · rw [hlast, hsum]
                  exact hfirst
                · rw [List.append_cons] at hfront ⊢
                  exact hmore front hlast hshorter hfront
          · intro hall
            constructor
            · rw [← hsum]
              exact hall [raw] (by simp) (by simp [List.cons_prefix_cons]) haccepted
            · intro front hne hbegins hfront
              rw [← List.append_cons] at hfront ⊢
              exact hall (raw :: front) (by simp) (List.cons_prefix_cons.mpr ⟨rfl, hbegins⟩) hfront

/-- A program that checks its sums stops at the first that does not fit, and otherwise makes the
same archive. -/
theorem buildChecked_eq_none_iff {backing : Backing} {raws : List RawEntry} :
    buildChecked id backing raws = none ↔
      ∃ front, front <+: raws ∧ Accepted id front ∧
        UInt64.size ≤ (front.map RawEntry.size).sum := by
  have hstart : indexEntries id [] = .ok [] := rfl
  have hfits := @sumFits_iff id [] raws [] hstart
  simp only [List.map_nil, List.sum_nil, List.nil_append] at hfits
  rw [buildChecked]
  split
  next hsum =>
    refine iff_of_false (by simp) ?_
    rintro ⟨front, hbegins, haccepted, hlarge⟩
    rw [hfits] at hsum
    refine absurd (hsum front ?_ hbegins haccepted) (not_lt.mpr hlarge)
    rintro rfl
    simp at hlarge
  next hsum =>
    refine iff_of_true rfl ?_
    rw [hfits] at hsum
    simp only [not_forall, not_lt] at hsum
    obtain ⟨front, -, hbegins, haccepted, hlarge⟩ := hsum
    exact ⟨front, hbegins, haccepted, hlarge⟩

theorem eq_build_of_buildChecked {backing : Backing} {raws : List RawEntry}
    {result : Except Error Archive} (h : buildChecked id backing raws = some result) :
    result = build id backing raws := by
  rw [buildChecked] at h
  split at h
  · exact (Option.some.inj h).symm
  · cases h

end Archive

/-- Files make an archive if each has a path that is not the root and no two have the same. The
archive then has one entry for each file, and the order of the files makes no difference to any
answer. Otherwise the complaint is about the first file that has no path, is the root or comes
again. The total of the sizes is taken around 64 bits; where sums are checked instead, the program
stops as soon as the files taken in are too large together, and makes the same of them otherwise.
The members of a container are never complained about for having no path. -/
theorem index_of_files (id : ArchiveId) (backing : Backing) (raws : List RawEntry) :
    ((∃ a, Archive.build id backing raws = .ok a) ↔
      (∀ raw ∈ raws, ∃ p, DisplayPath.parse raw.name = .ok p ∧ p.segments ≠ []) ∧
        raws.Pairwise fun raw other => Path.parse raw.name ≠ Path.parse other.name) ∧
    (∀ a, Archive.build id backing raws = .ok a →
      a.id = id ∧ a.backing = backing ∧
      List.Forall₂ (fun raw e => raw.Indexed e ∧ Path.parse raw.name = .ok e.path) raws a.entries ∧
      (∀ path e, a.find? path = some e ↔ e ∈ a.entries ∧ e.path = path) ∧
      a.totalBytes.toNat = (raws.map RawEntry.size).sum % UInt64.size ∧
      ∀ raws', raws'.Perm raws →
        ∃ b, Archive.build id backing raws' = .ok b ∧ b.AnswersLike a) ∧
    (∀ e, Archive.build id backing raws = .error e ↔
      ∃ front raw back, raws = front ++ raw :: back ∧ Archive.Accepted id front ∧
        raw.Refused id front e) ∧
    (∀ result, Archive.buildChecked id backing raws = some result →
      result = Archive.build id backing raws) ∧
    (Archive.buildChecked id backing raws = none ↔
      ∃ front, front <+: raws ∧ Archive.Accepted id front ∧
        UInt64.size ≤ (front.map RawEntry.size).sum) ∧
    ∀ reader d path name fault,
      loadContainer reader d path ≠ .error (.invalidPath name fault) := by
  refine ⟨?_, ?_, ?_, fun _ => Archive.eq_build_of_buildChecked, Archive.buildChecked_eq_none_iff,
    loadContainer_ne_invalidPath⟩
  · rw [Archive.exists_build_iff_accepted, Archive.accepted_iff]
  · intro a ha
    obtain ⟨hid, hbacking, hindexed⟩ := Archive.build_ok ha
    refine ⟨hid, hbacking, hindexed.imp fun raw e h => ⟨h, Archive.parse_of_indexed h⟩,
      fun path e => Archive.find?_eq_some_iff, ?_, ?_⟩
    · have hsizes : raws.map RawEntry.size = a.entries.map Entry.size :=
        map_eq_map_of_forall₂ (hindexed.imp fun raw e h => (congrArg UInt64.toNat h.byteSize).symm)
      rw [a.toNat_totalBytes, hsizes]
      rfl
    · intro raws' hraws
      obtain ⟨b, hb, hentries⟩ := Archive.build_perm ha hraws backing
      obtain ⟨hid', hbacking', -⟩ := Archive.build_ok hb
      exact ⟨b, hb, Archive.answersLike_of_perm (hid'.trans hid.symm)
        (hbacking'.trans hbacking.symm) hentries⟩
  · intro e
    rw [Archive.build_error_iff, Archive.indexEntries_error_iff]

end ArchiveOverlay
