import ArchiveOverlay.Proofs.Archive.Enumeration

namespace ArchiveOverlay

/-- All that is known of a file but for where its content is kept. -/
def Entry.facts (e : Entry) : DisplayPath × UInt64 × UInt64 :=
  (e.display, e.byteSize, e.checksum)

theorem Entry.path_eq_of_facts {e f : Entry} (h : e.facts = f.facts) : e.path = f.path := by
  rw [e.path_eq, f.path_eq, (Prod.mk.inj h).1]

theorem Entry.size_eq_of_facts {e f : Entry} (h : e.facts = f.facts) : e.size = f.size :=
  congrArg (fun facts : DisplayPath × UInt64 × UInt64 => facts.2.1.toNat) h

/-- That two readings are good for the same content of a file. -/
inductive Entry.ReadsAlike (e : Entry) : Except Error Source → Except Error Source → Prop where
  | same (reading : Except Error Source) : ReadsAlike e reading reading
  | intact {s s' : Source} (hfault : s.finalFault = none) (hfault' : s'.finalFault = none)
      (hcontent : s'.content = s.content) (hsize : e.size = s.content.size)
      (hchecksum : e.checksum = Digest.xxh3 s.content) : ReadsAlike e (.ok s) (.ok s')

namespace Resolved

/-- That two files look the same and are extracted alike, each from its own disk. -/
structure Agrees (d d' : Disk) (r r' : Resolved) : Prop where
  path : r.path = r'.path
  winner : r.winner = r'.winner
  facts : r.entry.facts = r'.entry.facts
  shadowed : r.shadowed = r'.shadowed
  extractBytes : ∀ verify cancelled,
    r.extractBytes d verify cancelled = r'.extractBytes d' verify cancelled
  extract : ∀ {σ : Type} {sink : Sink σ}, sink.Willing → ∀ verify state,
    (r.extract d verify sink state).1 = (r'.extract d' verify sink state).1 ∧
      (r.extract d verify sink state).2.accepted = (r'.extract d' verify sink state).2.accepted

variable {d d' : Disk} {r r' : Resolved}

/-- Extraction looks at what is known of a file, and not at where it is kept. -/
theorem stream_congr (hwinner : r.winner = r'.winner) (hfacts : r.entry.facts = r'.entry.facts)
    {σ : Type} (verify : Bool) (source : Source) (sink : Sink σ) (state : σ) :
    r.stream verify source sink state = r'.stream verify source sink state := by
  obtain ⟨hdisplay, hrest⟩ := Prod.mk.inj hfacts
  have hchecksum := (Prod.mk.inj hrest).2
  have hsize := Entry.size_eq_of_facts hfacts
  have hcorrupt : r.corrupt = r'.corrupt := by
    funext actual
    rw [corrupt, hdisplay, hwinner, hsize, corrupt]
  have hreadFault : r.readFault = r'.readFault := by
    funext written fault
    cases fault <;> simp only [readFault, hdisplay, hwinner, hsize, hcorrupt]
  have hcheck : r.check = r'.check := by
    funext verify content written
    rw [check, check, hdisplay, hwinner, hsize, hchecksum, hcorrupt]
  have hcopy : ∀ fault pieces written outlet,
      r.copy sink fault pieces written outlet = r'.copy sink fault pieces written outlet := by
    intro fault pieces
    induction pieces with
    | nil =>
        intro written outlet
        rw [copy, copy, hreadFault]
    | cons piece rest ih =>
        intro written outlet
        rw [copy, copy, hcorrupt, hsize]
        simp only [ih]
  rw [stream, hcopy, hcheck, stream]

theorem extractBytes_cancelled {source : Source}
    (h : r.archive.source d r.entry.handle = .ok source) (verify : Bool) :
    r.extractBytes d verify true = .error .cancelled := by
  rw [extractBytes, extract, h, deliver]
  simp only [stream_cancelled]

theorem agrees_of_reads (hpath : r.path = r'.path) (hwinner : r.winner = r'.winner)
    (hfacts : r.entry.facts = r'.entry.facts) (hshadowed : r.shadowed = r'.shadowed)
    (hreads : r.entry.ReadsAlike (r.archive.source d r.entry.handle)
      (r'.archive.source d' r'.entry.handle)) : Agrees d d' r r' := by
  have hsizes := Entry.size_eq_of_facts hfacts
  have hchecksums := (Prod.mk.inj (Prod.mk.inj hfacts).2).2
  generalize hreading : r.archive.source d r.entry.handle = reading at hreads
  generalize hreading' : r'.archive.source d' r'.entry.handle = reading' at hreads
  cases hreads with
  | same =>
      have hextract : ∀ {σ : Type} (sink : Sink σ) verify state,
          r.extract d verify sink state = r'.extract d' verify sink state := by
        intro σ sink verify state
        rw [extract, extract, hreading, hreading']
        cases reading with
        | error e => rfl
        | ok source => exact stream_congr hwinner hfacts verify source sink state
      refine ⟨hpath, hwinner, hfacts, hshadowed, ?_, ?_⟩
      · intro verify cancelled
        rw [extractBytes, hextract, extractBytes]
      · intro σ sink _ verify state
        rw [hextract]
        exact ⟨rfl, rfl⟩
  | @intact s s' hfault hfault' hcontent hsize hchecksum =>
      have hsize' : r'.entry.size = s'.content.size := by rw [← hsizes, hsize, hcontent]
      have hchecksum' : r'.entry.checksum = Digest.xxh3 s'.content := by
        rw [← hchecksums, hchecksum, hcontent]
      refine ⟨hpath, hwinner, hfacts, hshadowed, ?_, ?_⟩
      · intro verify cancelled
        cases cancelled with
        | true =>
            rw [extractBytes_cancelled hreading verify, extractBytes_cancelled hreading' verify]
        | false =>
            rw [extractBytes_of_source hreading hfault hsize hchecksum,
              extractBytes_of_source hreading' hfault' hsize' hchecksum', hcontent]
      · intro σ sink hsink verify state
        obtain ⟨ended, hstream⟩ := exists_stream_recorded hsink hfault hsize hchecksum verify state
        obtain ⟨ended', hstream'⟩ :=
          exists_stream_recorded hsink hfault' hsize' hchecksum' verify state
        rw [extract, hreading, extract, hreading', deliver, deliver, hstream, hstream', hcontent]
        exact ⟨rfl, rfl⟩

end Resolved

namespace Archive

/-- That two archives list the same files, in whatever order. -/
def SameFiles (a b : Archive) : Prop :=
  (a.entries.map Entry.facts).Perm (b.entries.map Entry.facts)

namespace SameFiles

variable {a b : Archive}

theorem find? (h : SameFiles a b) (path : Path) :
    (a.find? path).map Entry.facts = (b.find? path).map Entry.facts := by
  have hat : ∀ a : Archive,
      ((a.entries.map Entry.facts).filter fun facts => decide (Path.ofDisplay facts.1 = path)) =
        ((a.find? path).map Entry.facts).toList := by
    intro a
    have hpaths : ((fun facts => decide (Path.ofDisplay facts.1 = path)) ∘ Entry.facts) =
        fun e => decide (e.path = path) := by
      funext e
      rw [e.path_eq]
      rfl
    rw [List.filter_map, hpaths, a.filter_path]
    cases a.find? path <;> rfl
  have hperm := h.filter fun facts => decide (Path.ofDisplay facts.1 = path)
  rw [hat, hat] at hperm
  cases ha : (a.find? path).map Entry.facts with
  | none =>
      rw [ha, Option.toList_none, List.nil_perm, Option.toList_eq_nil_iff] at hperm
      exact hperm.symm
  | some facts =>
      rw [ha, Option.toList_some, List.singleton_perm] at hperm
      exact (Option.toList_eq_singleton_iff.mp hperm.symm).symm

theorem contains (h : SameFiles a b) (path : Path) : a.contains path = b.contains path := by
  have hfind := congrArg Option.isSome (h.find? path)
  rwa [Option.isSome_map, Option.isSome_map] at hfind

theorem totalBytes (h : SameFiles a b) : a.totalBytes = b.totalBytes := by
  have hsizes : ∀ a : Archive,
      a.entries.map Entry.byteSize = (a.entries.map Entry.facts).map fun facts => facts.2.1 := by
    intro a
    rw [List.map_map]
    rfl
  rw [Archive.totalBytes, Archive.totalBytes, hsizes, hsizes]
  exact (h.map _).foldr_eq 0

theorem children? (h : SameFiles a b) (dir : Path) : a.children? dir = b.children? dir := by
  have hdisplays : ∀ a : Archive,
      a.entries.map Entry.display = (a.entries.map Entry.facts).map Prod.fst := by
    intro a
    rw [List.map_map]
    rfl
  apply children?_congr
  intro display
  rw [hdisplays, hdisplays]
  exact (h.map Prod.fst).mem_iff

end SameFiles

/-- That one archive can stand in for another, each on its own disk. -/
structure Alike (d d' : Disk) (a b : Archive) : Prop where
  id : a.id = b.id
  files : SameFiles a b
  reads : ∀ e ∈ a.entries, ∀ f ∈ b.entries, e.facts = f.facts →
    e.ReadsAlike (a.source d e.handle) (b.source d' f.handle)

/-- An archive can stand in for itself as long as its files stay what they are. -/
theorem alike_of_unchanged {a : Archive} {d d' : Disk} (h : a.Unchanged d d') :
    Alike d d' a a := by
  refine ⟨rfl, .refl _, ?_⟩
  intro e he f hf hfacts
  rw [a.eq_of_path_eq he hf (Entry.path_eq_of_facts hfacts), source_of_unchanged h]
  exact .same _

end Archive

end ArchiveOverlay
