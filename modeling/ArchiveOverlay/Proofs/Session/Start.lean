import ArchiveOverlay.Proofs.Mount.Ranking
import ArchiveOverlay.Session
import Mathlib.Data.List.Forall2
import Mathlib.Data.List.Induction

namespace ArchiveOverlay

/-- Why an archive does not join those before it. -/
inductive ArchiveSource.Refused (d : Disk) (mounted : List Archive) (source : ArchiveSource) :
    CommandError → Prop where
  | unloadable {fault : Error} (hload : loadArchive d source.path = .error fault) :
      Refused d mounted source (.ofLoading source.path fault)
  | repeated {a b : Archive} (hload : loadArchive d source.path = .ok a) (hb : b ∈ mounted)
      (hname : b.id.named a.id.name = true) :
      Refused d mounted source (.failed (.duplicateMount a.id))

/-- An archive as it is found from a directory in which a relative path to it is written down. -/
def ArchiveSource.seenFrom (dir : String) (source : ArchiveSource) : ArchiveSource :=
  if HostPath.isAbsolute source.path = true then source
  else { source with path := HostPath.join dir source.path }

/-- That a profile is what the file at a path says. -/
def Profile.WrittenAt (d : Disk) (path : String) (p : Profile) : Prop :=
  ∃ content text written, d.fileContent path = .ok content ∧ String.fromUTF8? content = some text ∧
    Profile.parse text path = .ok written ∧ p.verifyChecksums = written.verifyChecksums ∧
    p.archives = written.archives.map (ArchiveSource.seenFrom ((HostPath.parent? path).getD ""))

theorem ArchiveSource.seenFrom_eq (dir : String) (source : ArchiveSource) :
    source.seenFrom dir = { source with path := HostPath.join dir source.path } := by
  rw [seenFrom]
  split
  next habsolute =>
    rw [HostPath.join, if_pos (by simp [habsolute])]
  · rfl

theorem Profile.load_eq_ok_iff {d : Disk} {path : String} {p : Profile} :
    load d path = .ok p ↔ p.WrittenAt d path := by
  have hseen : ArchiveSource.seenFrom ((HostPath.parent? path).getD "") = fun source =>
      { source with path := HostPath.join ((HostPath.parent? path).getD "") source.path } :=
    funext fun source => source.seenFrom_eq _
  rw [load, WrittenAt, hseen]
  cases hcontent : d.fileContent path with
  | error fault => simp [Except.toOption]
  | ok content =>
      cases htext : String.fromUTF8? content with
      | none => simp [Except.toOption, htext]
      | some text =>
          cases hparse : parse text path with
          | error e => simp [Except.toOption, htext, hparse, bind, Except.bind]
          | ok written =>
              rcases p with ⟨verifyChecksums, archives⟩
              simp [Except.toOption, htext, hparse, bind, Except.bind, pure, Except.pure, eq_comm]

namespace Session

/-- The archives behind some sources. They all load, and no two of them go by the same name. -/
structure Loads (d : Disk) (sources : List ArchiveSource) (loaded : List Archive) : Prop where
  each : List.Forall₂ (fun source a => loadArchive d source.path = .ok a) sources loaded
  apart : loaded.Pairwise fun a b => ¬ a.id.named b.id.name = true

/-- A table with the archives behind some sources, numbered as they came. -/
structure Mounted (d : Disk) (sources : List ArchiveSource) (loaded : List Archive)
    (t : MountTable) : Prop where
  loads : Loads d sources loaded
  sound : t.Sound
  next : t.nextOrder = sources.length
  mem : ∀ m, m ∈ t.mounts ↔ ∃ source, sources[m.order]? = some source ∧
    loaded[m.order]? = some m.archive ∧ m.priority = source.priority ∧ m.handle = m.order

variable {d : Disk} {sources : List ArchiveSource} {loaded : List Archive} {t : MountTable}

theorem mounted_empty (d : Disk) : Mounted d [] [] .empty where
  loads := ⟨.nil, .nil⟩
  sound := MountTable.sound_empty
  next := rfl
  mem := by simp [MountTable.empty]

theorem Loads.exists_source (h : Loads d sources loaded) {i : Nat} {a : Archive}
    (ha : loaded[i]? = some a) :
    ∃ source, sources[i]? = some source ∧ loadArchive d source.path = .ok a := by
  obtain ⟨hi, rfl⟩ := List.getElem?_eq_some_iff.mp ha
  have hi' : i < sources.length := h.each.length_eq ▸ hi
  exact ⟨sources[i], List.getElem?_eq_getElem hi', h.each.get hi' hi⟩

theorem Loads.exists_archive (h : Loads d sources loaded) {i : Nat} {source : ArchiveSource}
    (hsource : sources[i]? = some source) :
    ∃ a, loaded[i]? = some a ∧ loadArchive d source.path = .ok a := by
  obtain ⟨hi, rfl⟩ := List.getElem?_eq_some_iff.mp hsource
  have hi' : i < loaded.length := h.each.length_eq ▸ hi
  exact ⟨loaded[i], List.getElem?_eq_getElem hi', h.each.get hi hi'⟩

theorem Mounted.find?_eq_none_iff (h : Mounted d sources loaded t) {name : String} :
    t.find? name = none ↔ ∀ a ∈ loaded, ¬ a.id.named name = true := by
  rw [MountTable.find?_eq_none_iff]
  constructor
  · intro hfree a ha
    obtain ⟨i, hi⟩ := List.getElem?_of_mem ha
    obtain ⟨source, hsource, -⟩ := h.loads.exists_source hi
    exact hfree ⟨i, a, source.priority, i⟩ ((h.mem _).mpr ⟨source, hsource, hi, rfl, rfl⟩)
  · intro hfree m hm
    obtain ⟨source, -, hi, -, -⟩ := (h.mem m).mp hm
    exact hfree m.archive (List.mem_of_getElem? hi)

theorem Mounted.add (h : Mounted d sources loaded t) {source : ArchiveSource} {a : Archive}
    (hload : loadArchive d source.path = .ok a) (hfree : t.find? a.id.name = none) :
    Mounted d (sources ++ [source]) (loaded ++ [a]) (t.add a source.priority) := by
  have hlength : loaded.length = sources.length := h.loads.each.length_eq.symm
  refine ⟨⟨List.rel_append h.loads.each (.cons hload .nil), ?_⟩, h.sound.add hfree _, ?_, ?_⟩
  · rw [List.pairwise_append]
    refine ⟨h.loads.apart, List.pairwise_singleton _ _, ?_⟩
    intro b hb a' ha'
    rw [List.mem_singleton.mp ha']
    exact h.find?_eq_none_iff.mp hfree b hb
  · rw [MountTable.add, h.next, List.length_append, List.length_singleton]
  · rintro ⟨handle, archive, priority, order⟩
    rw [MountTable.mem_add_mounts, h.mem, MountTable.nextMount, Mount.mk.injEq, h.next]
    -- The new archive has the number of those before it, which have lesser ones.
    dsimp only
    rcases Nat.lt_trichotomy order sources.length with hlt | rfl | hgt
    · rw [List.getElem?_append_left hlt, List.getElem?_append_left (by omega)]
      exact or_iff_right fun hnew => Nat.ne_of_lt hlt hnew.2.2.2
    · rw [List.getElem?_concat_length, ← hlength, List.getElem?_concat_length]
      simp only [hlength, Option.some.injEq, List.getElem?_eq_none (Nat.le_refl sources.length),
        reduceCtorEq, false_and, exists_false, or_false, exists_eq_left', and_true]
      constructor
      · rintro ⟨rfl, rfl, rfl⟩
        exact ⟨rfl, rfl, rfl⟩
      · rintro ⟨rfl, rfl, rfl⟩
        exact ⟨rfl, rfl, rfl⟩
    · have hsource : (sources ++ [source])[order]? = none :=
        List.getElem?_eq_none (by rw [List.length_append]; exact hgt)
      rw [hsource, List.getElem?_eq_none (Nat.le_of_lt hgt)]
      simp [Nat.ne_of_gt hgt]

theorem mountSource_eq (d : Disk) (t : MountTable) (source : ArchiveSource) :
    mountSource d t source =
      match loadArchive d source.path with
      | .error fault => .error (.ofLoading source.path fault)
      | .ok a =>
        if (t.find? a.id.name).isSome then .error (.failed (.duplicateMount a.id))
        else .ok (t.add a source.priority) := by
  rw [mountSource]
  cases loadArchive d source.path with
  | error fault => rfl
  | ok a =>
      show ((t.mount a source.priority).mapError CommandError.failed >>=
        fun mounted => pure mounted.2) = _
      rw [MountTable.mount]
      dsimp only
      split
      · rfl
      · rfl

/-- One more archive is mounted behind the others, or refused. -/
theorem Mounted.step (h : Mounted d sources loaded t) (source : ArchiveSource) :
    (∃ a t', mountSource d t source = .ok t' ∧
      Mounted d (sources ++ [source]) (loaded ++ [a]) t') ∨
        ∃ e, mountSource d t source = .error e ∧ source.Refused d loaded e := by
  rw [mountSource_eq]
  cases hload : loadArchive d source.path with
  | error fault => exact .inr ⟨_, rfl, .unloadable hload⟩
  | ok a =>
      cases hfind : t.find? a.id.name with
      | none => exact .inl ⟨a, _, by simp [hfind], h.add hload hfind⟩
      | some m =>
          have htaken : ¬ ∀ b ∈ loaded, ¬ b.id.named a.id.name = true := by
            rw [← h.find?_eq_none_iff, hfind]
            exact Option.some_ne_none m
          obtain ⟨b, hb, hname⟩ : ∃ b ∈ loaded, b.id.named a.id.name = true := by
            simpa using htaken
          exact .inr ⟨_, by simp [hfind], .repeated hload hb hname⟩

/-- Mounting goes on until the end or until an archive is refused. -/
theorem mounted_or_refused (d : Disk) (sources : List ArchiveSource) :
    (∃ loaded t, sources.foldlM (mountSource d) .empty = .ok t ∧ Mounted d sources loaded t) ∨
      ∃ front source back loaded e, sources = front ++ source :: back ∧ Loads d front loaded ∧
        source.Refused d loaded e ∧ sources.foldlM (mountSource d) .empty = .error e := by
  induction sources using List.reverseRecOn with
  | nil => exact .inl ⟨[], .empty, rfl, mounted_empty d⟩
  | append_singleton sources last ih =>
      rw [List.foldlM_append]
      rcases ih with
        ⟨loaded, t, hfold, hmounted⟩ |
        ⟨front, source, back, loaded, e, rfl, hloads, hrefused, hfold⟩
      · rw [hfold]
        rcases hmounted.step last with ⟨a, t', hstep, hmounted'⟩ | ⟨e, hstep, hrefused⟩
        · exact .inl ⟨loaded ++ [a], t', by simp [hstep, bind, Except.bind, pure, Except.pure],
            hmounted'⟩
        · exact .inr ⟨sources, last, [], loaded, e, rfl, hmounted.loads, hrefused,
            by simp [hstep, bind, Except.bind]⟩
      · rw [hfold]
        exact .inr ⟨front, source, back ++ [last], loaded, e, by simp, hloads, hrefused, rfl⟩

/-- Where an archive is refused, not all of them load under different names. -/
theorem not_loads_of_refused {front back : List ArchiveSource} {source : ArchiveSource}
    {all : List Archive} {e : CommandError} (hloads : Loads d front loaded)
    (hrefused : source.Refused d loaded e) : ¬ Loads d (front ++ source :: back) all := by
  intro hall
  have hat : (front ++ source :: back)[front.length]? = some source := by simp
  obtain ⟨last, hlast, hload⟩ := hall.exists_archive hat
  cases hrefused with
  | unloadable hfault => simp [hfault] at hload
  | @repeated a b hok hb hname =>
      obtain rfl : a = last := by simpa [hok] using hload
      obtain ⟨i, hi⟩ := List.getElem?_of_mem hb
      obtain ⟨source', hsource, hload'⟩ := hloads.exists_source hi
      obtain ⟨hlt, -⟩ := List.getElem?_eq_some_iff.mp hsource
      have hat' : (front ++ source :: back)[i]? = some source' := by
        rwa [List.getElem?_append_left hlt]
      obtain ⟨b', hb', hload''⟩ := hall.exists_archive hat'
      obtain rfl : b = b' := by simpa [hload'] using hload''
      obtain ⟨hi', rfl⟩ := List.getElem?_eq_some_iff.mp hb'
      obtain ⟨hi'', rfl⟩ := List.getElem?_eq_some_iff.mp hlast
      exact List.pairwise_iff_getElem.mp hall.apart i front.length hi' hi'' hlt hname

theorem Mounted.mounts_eq_nil_iff (h : Mounted d sources loaded t) :
    t.mounts = [] ↔ sources = [] := by
  constructor
  · intro hnil
    cases hsources : sources with
    | nil => rfl
    | cons first rest =>
        have hfirst : sources[0]? = some first := by rw [hsources, List.getElem?_cons_zero]
        obtain ⟨a, ha, -⟩ := h.loads.exists_archive hfirst
        have hmem := (h.mem ⟨0, a, first.priority, 0⟩).mpr ⟨first, hfirst, ha, rfl, rfl⟩
        rw [hnil] at hmem
        cases hmem
  · rintro rfl
    refine List.eq_nil_iff_forall_not_mem.mpr fun m hm => ?_
    obtain ⟨source, hsource, -⟩ := (h.mem m).mp hm
    cases hsource

theorem Mounted.mem_iff (h : Mounted d sources loaded t) {m : Mount} :
    m ∈ t.mounts ↔ ∃ source, sources[m.order]? = some source ∧
      loadArchive d source.path = .ok m.archive ∧ m.priority = source.priority ∧
      m.handle = m.order := by
  rw [h.mem]
  refine exists_congr fun source => and_congr_right fun hsource => and_congr_left fun _ => ?_
  obtain ⟨a, ha, hload⟩ := h.loads.exists_archive hsource
  rw [ha, hload, Option.some.injEq, Except.ok.injEq]

/-- Why a session does not start with these archives: there are none, or one of them is refused. -/
inductive Stopped (d : Disk) (sources : List ArchiveSource) : CommandError → Prop where
  | empty (hsources : sources = []) : Stopped d sources .nothingMounted
  | refused {front back : List ArchiveSource} {source : ArchiveSource} {loaded : List Archive}
      {e : CommandError} (hsources : sources = front ++ source :: back)
      (hloads : Loads d front loaded)
      (hrefused : source.Refused d loaded e) : Stopped d sources e

theorem Stopped.not_loads {e : CommandError} (h : Stopped d sources e) :
    ¬ (sources ≠ [] ∧ Loads d sources loaded) := by
  rintro ⟨hne, hall⟩
  cases h with
  | empty hsources => exact hne hsources
  | refused hsources hloads hrefused =>
      subst hsources
      exact not_loads_of_refused hloads hrefused hall

/-- The profile that is asked for, or else the default if no archive is asked for. -/
def chosenProfile (settings : Settings) : Option String → List ArchiveSource → Option String
  | some path, _ => some path
  | none, [] => settings.defaultProfile
  | none, _ :: _ => none

/-- That a session goes by a profile: the chosen one, as it is written, or the empty one. -/
def Uses (d : Disk) (settings : Settings) (profile : Option String) (archives : List ArchiveSource)
    (p : Profile) : Prop :=
  match chosenProfile settings profile archives with
  | some path => p.WrittenAt d path
  | none => p = .empty

variable {settings : Settings} {profile : Option String} {archives : List ArchiveSource}

theorem profilePath?_eq :
    profilePath? settings profile archives = chosenProfile settings profile archives := by
  cases profile with
  | some path => rfl
  | none => cases archives <;> rfl

theorem start_of_uses {p : Profile} (h : Uses d settings profile archives p) :
    start d settings profile archives =
      ((p.archives ++ archives).foldlM (mountSource d) .empty).bind fun table =>
        if table.mounts.isEmpty then .error .nothingMounted
        else .ok ⟨table, p.verifyChecksums.getD settings.verifyChecksums⟩ := by
  rw [start, profilePath?_eq]
  rw [Uses] at h
  cases hchosen : chosenProfile settings profile archives with
  | none =>
      rw [hchosen] at h
      subst h
      rfl
  | some path =>
      rw [hchosen] at h
      simp only [Profile.load_eq_ok_iff.mpr h]
      rfl

/-- With a profile at hand, a session starts or says what stops it. -/
theorem start_cases {p : Profile} (h : Uses d settings profile archives p) :
    (∃ loaded table, Mounted d (p.archives ++ archives) loaded table ∧
      p.archives ++ archives ≠ [] ∧ start d settings profile archives =
        .ok ⟨table, p.verifyChecksums.getD settings.verifyChecksums⟩) ∨
      ∃ e, start d settings profile archives = .error e ∧
        Stopped d (p.archives ++ archives) e := by
  rw [start_of_uses h]
  rcases mounted_or_refused d (p.archives ++ archives) with
    ⟨loaded, table, hfold, hmounted⟩ |
    ⟨front, source, back, loaded, e, hsources, hloads, hrefused, hfold⟩
  · rw [hfold, Except.bind]
    by_cases hnil : p.archives ++ archives = []
    · rw [if_pos (List.isEmpty_iff.mpr (hmounted.mounts_eq_nil_iff.mpr hnil))]
      exact .inr ⟨_, rfl, .empty hnil⟩
    · rw [if_neg fun hempty => hnil (hmounted.mounts_eq_nil_iff.mp (List.isEmpty_iff.mp hempty))]
      exact .inl ⟨loaded, table, hmounted, hnil, rfl⟩
  · rw [hfold]
    exact .inr ⟨e, rfl, .refused hsources hloads hrefused⟩

theorem start_of_unreadable {path : String} {e : CommandError}
    (hchosen : chosenProfile settings profile archives = some path)
    (hload : Profile.load d path = .error e) : start d settings profile archives = .error e := by
  rw [start, profilePath?_eq, hchosen]
  simp only [hload]
  rfl

theorem uses_or_unreadable (d : Disk) (settings : Settings) (profile : Option String)
    (archives : List ArchiveSource) :
    (∃ p, Uses d settings profile archives p) ∨
      ∃ path e, chosenProfile settings profile archives = some path ∧
        Profile.load d path = .error e := by
  cases hchosen : chosenProfile settings profile archives with
  | none => exact .inl ⟨.empty, by rw [Uses, hchosen]⟩
  | some path =>
      cases hload : Profile.load d path with
      | error e => exact .inr ⟨path, e, rfl, hload⟩
      | ok p =>
          refine .inl ⟨p, ?_⟩
          rw [Uses, hchosen]
          exact Profile.load_eq_ok_iff.mp hload

end Session

/-- Of two mounts the one that outranks the other stands before it. -/
theorem MountTable.Sound.sublist_of_outranks {t : MountTable} (hs : t.Sound) {m m' : Mount}
    (hm : m ∈ t.mounts) (hm' : m' ∈ t.mounts) (h : m.outranks m' = true) :
    [m, m'].Sublist t.mounts := by
  obtain ⟨front, back, hmounts⟩ := List.append_of_mem hm
  have hranked := hs.ranked
  rw [hmounts, List.pairwise_append] at hranked
  rw [hmounts] at hm' ⊢
  have hbehind : m' ∈ back := by
    rcases List.mem_append.mp hm' with hfront | hback
    · have hless := hranked.2.2 m' hfront m List.mem_cons_self
      rw [Mount.outranks_iff] at h hless
      omega
    · rcases List.mem_cons.mp hback with rfl | hback
      · rw [Mount.outranks_iff] at h
        omega
      · exact hback
  exact ((List.singleton_sublist.mpr hbehind).cons_cons m).trans (List.sublist_append_right _ _)

/-- A session starts if the chosen profile can be read, there is some archive in it or beside it,
all of them load, and no two share a name. They then stand by priority, the later before the
earlier, and the profile has the first word on verification. Otherwise the error is that of the
profile, or of the first archive that is refused, or that there is none. -/
theorem session_start (d : Disk) (settings : Settings) (profile : Option String)
    (archives : List ArchiveSource) :
    let outcome := Session.start d settings profile archives
    ((∃ s, outcome = .ok s) ↔ ∃ p, Session.Uses d settings profile archives p ∧
      ∃ loaded, p.archives ++ archives ≠ [] ∧ Session.Loads d (p.archives ++ archives) loaded) ∧
    (∀ s p, outcome = .ok s → Session.Uses d settings profile archives p →
      s.verify = p.verifyChecksums.getD settings.verifyChecksums ∧
      (∀ m, m ∈ s.table.mounts ↔ ∃ source, (p.archives ++ archives)[m.order]? = some source ∧
        loadArchive d source.path = .ok m.archive ∧ m.priority = source.priority ∧
        m.handle = m.order) ∧
      s.table.mounts.Pairwise (fun m m' =>
        m'.priority < m.priority ∨ (m.priority = m'.priority ∧ m'.order < m.order)) ∧
      ∀ m ∈ s.table.mounts, ∀ m' ∈ s.table.mounts, p.archives.length ≤ m.order →
        m'.order < p.archives.length → m.priority = m'.priority →
        [m, m'].Sublist s.table.mounts) ∧
    ∀ e, outcome = .error e →
      (∃ path, Session.chosenProfile settings profile archives = some path ∧
        Profile.load d path = .error e) ∨
      ∃ p, Session.Uses d settings profile archives p ∧
        Session.Stopped d (p.archives ++ archives) e := by
  intro outcome
  refine ⟨⟨?_, ?_⟩, ?_, ?_⟩
  · rintro ⟨s, hs⟩
    rcases Session.uses_or_unreadable d settings profile archives with
      ⟨p, hp⟩ | ⟨path, e, hchosen, hload⟩
    · rcases Session.start_cases hp with ⟨loaded, table, hmounted, hne, -⟩ | ⟨e, he, -⟩
      · exact ⟨p, hp, loaded, hne, hmounted.loads⟩
      · cases hs.symm.trans he
    · cases hs.symm.trans (Session.start_of_unreadable hchosen hload)
  · rintro ⟨p, hp, loaded, hne, hloads⟩
    rcases Session.start_cases hp with ⟨_, table, -, -, hs⟩ | ⟨e, -, hstopped⟩
    · exact ⟨_, hs⟩
    · exact absurd ⟨hne, hloads⟩ hstopped.not_loads
  · intro s p hs hp
    rcases Session.start_cases hp with ⟨loaded, table, hmounted, -, hstart⟩ | ⟨e, he, -⟩
    · obtain rfl := Except.ok.inj (hstart.symm.trans hs)
      refine ⟨rfl, ?_, ?_, ?_⟩
      · intro m
        exact hmounted.mem_iff
      · exact hmounted.sound.ranked.imp fun houtranks => Mount.outranks_iff.mp houtranks
      · intro m hm m' hm' hlater hearlier hpriority
        apply hmounted.sound.sublist_of_outranks hm hm'
        exact Mount.outranks_iff.mpr (.inr ⟨hpriority, Nat.lt_of_lt_of_le hearlier hlater⟩)
    · cases hs.symm.trans he
  · intro e he
    rcases Session.uses_or_unreadable d settings profile archives with
      ⟨p, hp⟩ | ⟨path, e', hchosen, hload⟩
    · rcases Session.start_cases hp with ⟨_, _, -, -, hs⟩ | ⟨e', he', hstopped⟩
      · cases he.symm.trans hs
      · obtain rfl := Except.error.inj (he.symm.trans he')
        exact .inr ⟨p, hp, hstopped⟩
    · obtain rfl := Except.error.inj (he.symm.trans (Session.start_of_unreadable hchosen hload))
      exact .inl ⟨path, hchosen, hload⟩

end ArchiveOverlay
