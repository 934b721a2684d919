import ArchiveOverlay.Command.Extract
import ArchiveOverlay.Proofs.Disk.HostPath
import ArchiveOverlay.Proofs.Overlay.Walk

namespace ArchiveOverlay

namespace Archive

theorem ordinary_display (a : Archive) {e : Entry} (he : e ∈ a.entries) :
    e.display.segments ≠ [] ∧ ∀ s ∈ e.display.segments, Ordinary s := by
  obtain ⟨name, hparse, hne⟩ := a.exists_name he
  exact ⟨hne, DisplayPath.ordinary_of_parse hparse⟩

theorem Names.ordinary {a : Archive} {d : Path} {k name : String} (h : a.Names d k name) :
    Ordinary name ∧ Text.lowercase name = k := by
  obtain ⟨⟨⟨e, he, front, rest, hsplit, -⟩, hkey⟩, -⟩ := h
  exact ⟨(a.ordinary_display he).2 name (by simp [hsplit]), hkey⟩

end Archive

theorem DisplayPath.fileName_eq {p : DisplayPath} (h : p.segments ≠ []) :
    p.segments.getLast? = some p.fileName := by
  rw [fileName, List.getLastD_eq_getLast?, List.getLast?_eq_some_getLast h, Option.getD_some]

theorem Entry.lowercase_fileName {e : Entry} (h : e.display.segments ≠ []) :
    e.path.segments.getLast? = some (Text.lowercase e.display.fileName) := by
  rw [e.path_segments, List.getLast?_map, DisplayPath.fileName_eq h, Option.map_some]

namespace Overlay

variable {o : Overlay} {dir : Path} {k : String} {r : Resolved}

/-- A member of a directory has the same name wherever it is asked for. -/
theorem childName?_eq (o : Overlay) (dir : Path) (k : String) :
    o.childName? dir k = ((o.members dir).find? fun i => decide (i.key = k)).map Item.name := by
  have hname : ∀ a b : Item, (a.merge b).name = a.name := fun _ _ => rfl
  rw [find?_members, Ordered.mergeAll_first Item.name hname, rows,
    List.head?_filterMap, childName?]
  induction o.archives with
  | nil => rfl
  | cons a archives ih =>
      rw [List.findSome?_cons, List.findSome?_cons]
      cases a.child? dir k with
      | none => exact ih
      | some c => rfl

theorem childName?_of_member {item : Item} (h : item ∈ o.members dir) :
    o.childName? dir item.key = some item.name := by
  rw [childName?_eq, (o.members_ascending dir).mem_iff.mp h, Option.map_some]

theorem member_name_ordinary {item : Item} (h : item ∈ o.members dir) :
    Ordinary item.name ∧ Text.lowercase item.name = item.key := by
  obtain ⟨-, above, a, below, -, -, -, hnames⟩ := member_first h
  exact hnames.ordinary

theorem entry_of_resolve? {path : Path} (h : o.resolve? path = some r) :
    r.archive ∈ o.archives ∧ r.entry ∈ r.archive.entries ∧ r.entry.path = path := by
  rw [resolve?] at h
  split at h
  · cases h
  next archive entry others hholders =>
    cases h
    have hmem : (archive, entry) ∈ o.holders path := by simp [hholders]
    obtain ⟨hentry, hpath⟩ := Archive.find?_some (mem_holders hmem)
    have harchive : archive ∈ (o.holders path).map Prod.fst := List.mem_map_of_mem hmem
    rw [holders_map_fst] at harchive
    exact ⟨(List.mem_filter.mp harchive).1, hentry, hpath⟩

/-- The last name is that of the file in its archive. -/
theorem fileName_of_resolve? {path : Path} (h : o.resolve? path = some r) :
    Ordinary r.entry.display.fileName ∧
      r.entry.display.segments.getLast? = some r.entry.display.fileName ∧
      path.segments.getLast? = some (Text.lowercase r.entry.display.fileName) := by
  obtain ⟨-, hentry, rfl⟩ := entry_of_resolve? h
  obtain ⟨hne, hordinary⟩ := r.archive.ordinary_display hentry
  have hlast := DisplayPath.fileName_eq hne
  exact ⟨hordinary _ (List.mem_of_getLast? hlast), hlast, Entry.lowercase_fileName hne⟩

/-- What the names of a file below a directory are, given the rest of its path from there on. -/
structure OutputNames (o : Overlay) (fileName : String) (dir : Path) (keys names : List String) :
    Prop where
  ne_nil : names ≠ []
  lowercase : names.map Text.lowercase = keys
  ordinary : ∀ name ∈ names, Ordinary name
  last : names.getLast? = some fileName
  /-- All names but the last are those that listings show. -/
  listed : ∀ front key rest, keys = front ++ key :: rest → rest ≠ [] →
    ∃ item ∈ o.members ⟨dir.segments ++ front⟩, item.key = key ∧ item.isDirectory = true ∧
      names[front.length]? = some item.name

theorem outputNames_spec {fileName : String} {keys : List String} {path : Path}
    (hholds : o.Holds path) (hkeys : path.segments = dir.segments ++ keys) (hne : keys ≠ [])
    (hname : Ordinary fileName) (hlast : keys.getLast? = some (Text.lowercase fileName)) :
    OutputNames o fileName dir keys (o.outputNames fileName dir keys) := by
  induction keys generalizing dir with
  | nil => exact absurd rfl hne
  | cons key keys ih =>
      cases keys with
      | nil =>
          have hkey : key = Text.lowercase fileName := by simpa using hlast
          refine ⟨by simp [outputNames], by simp [outputNames, hkey], by simpa [outputNames],
            rfl, ?_⟩
          intro front other rest hsplit hrest
          cases front with
          | nil =>
              cases hsplit
              exact absurd rfl hrest
          | cons head front => simp at hsplit
      | cons next keys =>
          have habove : (dir.child key).IsAbove path := ⟨next, keys, by simp [hkeys, Path.child]⟩
          obtain ⟨item, hitem, hitemKey⟩ := exists_member_of_isAbove hholds (.inr habove)
          obtain ⟨hordinary, hlower⟩ := member_name_ordinary hitem
          have hchild : o.childName? dir key = some item.name := by
            rw [← hitemKey]
            exact childName?_of_member hitem
          have hstep : o.outputNames fileName dir (key :: next :: keys) =
              item.name :: o.outputNames fileName (dir.child key) (next :: keys) := by
            rw [outputNames, hchild, Option.getD_some]
            simp
          have hdeeper : path.segments = (dir.child key).segments ++ next :: keys := by
            simp [hkeys, Path.child]
          have hrest := ih hdeeper (by simp) (by simpa using hlast)
          rw [hstep]
          refine ⟨by simp, ?_, ?_, ?_, ?_⟩
          · rw [List.map_cons, hrest.lowercase, hlower, hitemKey]
          · intro name hmem
            rcases List.mem_cons.mp hmem with rfl | hmem
            · exact hordinary
            · exact hrest.ordinary name hmem
          · rw [List.getLast?_cons, hrest.last]
            rfl
          · intro front other rest hsplit hne
            cases front with
            | nil =>
                cases hsplit
                refine ⟨item, by simpa using hitem, hitemKey, ?_, rfl⟩
                rw [member_isDirectory hitem, hitemKey]
                exact listable_of_isAbove hholds habove
            | cons head front =>
                obtain ⟨hhead, htail⟩ := List.cons.inj hsplit
                subst hhead
                obtain ⟨inner, hinner, hspec⟩ := hrest.listed front other rest htail hne
                refine ⟨inner, ?_, hspec⟩
                simpa [Path.child] using hinner

theorem outputNames_of_mem (hdir : dir.Canonical) (hr : r ∈ o.allBelow dir) :
    dir.IsAbove r.path ∧
      OutputNames o r.entry.display.fileName dir (r.path.segments.drop dir.segments.length)
        (o.exportTarget dir r).names := by
  obtain ⟨habove, hresolve⟩ := (mem_allBelow hdir).mp hr
  obtain ⟨hname, -, hlast⟩ := fileName_of_resolve? hresolve
  refine ⟨habove, ?_⟩
  obtain ⟨key, rest, hsegments⟩ := habove
  have hdrop : r.path.segments.drop dir.segments.length = key :: rest := by
    rw [hsegments, List.drop_left]
  rw [exportTarget, hdrop]
  apply outputNames_spec (holds_of_resolve? hresolve) hsegments (by simp) hname
  rwa [hsegments, List.getLast?_append_of_ne_nil _ (by simp)] at hlast

end Overlay

/-- Where the file goes: names behind the names of the destination. -/
theorem ExportTarget.components_path {t : ExportTarget} (h : ∀ name ∈ t.names, Ordinary name)
    (destination : String) :
    HostPath.components (t.path destination) = HostPath.components destination ++ t.names ∧
      HostPath.isAbsolute (t.path destination) = HostPath.isAbsolute destination := by
  obtain ⟨hcomponents, habsolute⟩ := HostPath.components_foldl_join h ""
  have hrelative : HostPath.isAbsolute (t.names.foldl HostPath.join "") = false := habsolute
  rw [path, HostPath.components_join hrelative, hcomponents, HostPath.components_empty,
    HostPath.isAbsolute_join hrelative]
  exact ⟨by simp, rfl⟩

theorem Path.Canonical.of_append {segments rest : List String}
    (h : Path.Canonical ⟨segments ++ rest⟩) : Path.Canonical ⟨segments⟩ :=
  fun s hs => h s (List.mem_append_left _ hs)

/-- Every directory on the way to a file is listed in the one that holds it. -/
theorem Overlay.listed_on_the_way {o : Overlay} {dir : Path} {r : Resolved} {names : List String}
    (hnames : OutputNames o r.entry.display.fileName dir
      (r.path.segments.drop dir.segments.length) names)
    (hresolve : o.resolve? r.path = some r) {front rest : List String} {key : String}
    (hsplit : r.path.segments = dir.segments ++ front ++ key :: rest) (hrest : rest ≠ []) :
    ∃ items item, o.list (Path.text ⟨dir.segments ++ front⟩) = .ok items ∧
      item ∈ items ∧ item.key = key ∧ item.isDirectory = true ∧
      o.childName? ⟨dir.segments ++ front⟩ key = some item.name ∧
      names[front.length]? = some item.name := by
  have hholds := holds_of_resolve? hresolve
  have hdrop : r.path.segments.drop dir.segments.length = front ++ key :: rest := by
    rw [hsplit, List.append_assoc, List.drop_left]
  have hpath : Path.Canonical ⟨dir.segments ++ front ++ key :: rest⟩ := by
    rw [← hsplit]
    exact hholds.canonical
  have hcanonical := hpath.of_append
  have hlistable : o.Listable ⟨dir.segments ++ front⟩ :=
    listable_of_isAbove hholds ⟨key, rest, hsplit⟩
  obtain ⟨item, hitem, hkey, hdirectory, hname⟩ := hnames.listed front key rest hdrop hrest
  obtain ⟨items, hitems⟩ := (exists_list_iff (Path.parse_text hcanonical)).mpr hlistable
  refine ⟨items, item, hitems, ?_, hkey, hdirectory, ?_, hname⟩
  · rwa [list_eq_ok (Path.parse_text hcanonical) hitems]
  · rw [← hkey]
    exact childName?_of_member hitem

/-- Whatever archives are in use, a file that an export finds is written under one ordinary name
for each segment of its path below the exported directory. All names but the last are shown by
listings, and the last is the file's own. Likewise a file that is extracted alone goes to one
ordinary name by default. -/
theorem output_stays_below (t : MountTable) :
    (∀ raw dir found, Path.parse raw = .ok dir → t.overlay.walk raw = .ok found → ∀ r ∈ found,
      let names := (t.overlay.exportTarget dir r).names
      names ≠ [] ∧
      dir.segments.length < r.path.segments.length ∧
      names.length = r.path.segments.length - dir.segments.length ∧
      names.map Text.lowercase = r.path.segments.drop dir.segments.length ∧
      names.getLast? = r.entry.display.segments.getLast? ∧
      (∀ front key rest, r.path.segments = dir.segments ++ front ++ key :: rest → rest ≠ [] →
        ∃ items item, t.overlay.list (Path.text ⟨dir.segments ++ front⟩) = .ok items ∧
          item ∈ items ∧ item.key = key ∧ item.isDirectory = true ∧
          t.overlay.childName? ⟨dir.segments ++ front⟩ key = some item.name ∧
          names[front.length]? = some item.name) ∧
      (∀ name ∈ names, Ordinary name) ∧
      ∀ destination,
        let path := (t.overlay.exportTarget dir r).path destination
        HostPath.components path = HostPath.components destination ++ names ∧
          HostPath.isAbsolute path = HostPath.isAbsolute destination) ∧
    ∀ raw r, t.overlay.resolve raw = .ok r →
      let name := r.entry.display.fileName
      Ordinary name ∧
      r.entry.display.segments.getLast? = some name ∧
      r.path.segments.getLast? = some (Text.lowercase name) ∧
      ∀ verify d coloured, Session.extract ⟨t, verify⟩ d coloured raw none =
        Session.extract ⟨t, verify⟩ d coloured raw (some name) := by
  constructor
  · intro raw dir found hparse hwalk r hr names
    have hcanonical := Path.canonical_of_parse hparse
    rw [Overlay.eq_allBelow_of_walk hparse hwalk] at hr
    obtain ⟨habove, hnames⟩ := Overlay.outputNames_of_mem hcanonical hr
    obtain ⟨-, hresolve⟩ := (Overlay.mem_allBelow hcanonical).mp hr
    obtain ⟨-, hlast, -⟩ := Overlay.fileName_of_resolve? hresolve
    have hlength : names.length = r.path.segments.length - dir.segments.length := by
      rw [← List.length_map Text.lowercase, hnames.lowercase, List.length_drop]
    refine ⟨hnames.ne_nil, ?_, hlength, hnames.lowercase, hnames.last.trans hlast.symm, ?_,
      hnames.ordinary, fun destination => ExportTarget.components_path hnames.ordinary destination⟩
    · obtain ⟨key, rest, hsegments⟩ := habove
      rw [hsegments, List.length_append, List.length_cons]
      omega
    · intro front key rest hsplit hrest
      exact Overlay.listed_on_the_way hnames hresolve hsplit hrest
  · intro raw r hresolve name
    obtain ⟨path, hseen⟩ := Overlay.resolve?_of_resolve hresolve
    obtain ⟨hname, hlast, hkey⟩ := Overlay.fileName_of_resolve? hseen
    refine ⟨hname, hlast, ?_, ?_⟩
    · rwa [Overlay.resolve?_path hseen]
    · intro verify d coloured
      rw [Session.extract, Session.extract, hresolve]
      rfl

end ArchiveOverlay
