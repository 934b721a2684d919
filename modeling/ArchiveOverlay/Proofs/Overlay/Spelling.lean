import ArchiveOverlay.Archive.Memory
import ArchiveOverlay.Proofs.Export.Names
import ArchiveOverlay.Proofs.Overlay.Conflicts
import ArchiveOverlay.Proofs.Path.Spelling

namespace ArchiveOverlay

namespace Overlay

variable {o : Overlay} {a b raw : String} {path : Path} {r : Resolved}

/-- Texts that are read as the same path have the same answers. -/
theorem answers_of_parse_ok (o : Overlay) (ha : Path.parse a = .ok path)
    (hb : Path.parse b = .ok path) :
    o.resolve a = o.resolve b ∧ o.holds a = o.holds b ∧ o.list a = o.list b ∧
      o.walk a = o.walk b := by
  refine ⟨?_, ?_, ?_, ?_⟩
  · rw [resolve_of_parse_ok ha, resolve_of_parse_ok hb]
  · rw [holds, ha, holds, hb]
  · rw [list_of_parse_ok ha, list_of_parse_ok hb]
  · rw [walk_of_parse_ok ha, walk_of_parse_ok hb]

/-- That a text is refused by every question for a path. -/
def Refuses (o : Overlay) (raw : String) (fault : PathFault) : Prop :=
  o.resolve raw = .error (.invalidPath raw fault) ∧ o.holds raw = false ∧
    o.list raw = .error (.invalidPath raw fault) ∧ o.walk raw = .error (.invalidPath raw fault)

theorem refuses_of_parse_error {fault : PathFault} (h : Path.parse raw = .error fault) :
    o.Refuses raw fault := by
  refine ⟨resolve_of_parse_error h, ?_, list_of_parse_error h, walk_of_parse_error h⟩
  rw [holds, h]

/-- That two texts are answered alike. Complaints about a text repeat it. -/
def AnswersAlike (o : Overlay) (a b : String) : Prop :=
  (∃ fault, o.Refuses a fault ∧ o.Refuses b fault) ∨
    (o.resolve a = o.resolve b ∧ o.holds a = o.holds b ∧ o.list a = o.list b ∧ o.walk a = o.walk b)

theorem answersAlike_of_parse_eq (o : Overlay) (h : Path.parse a = Path.parse b) :
    o.AnswersAlike a b := by
  cases ha : Path.parse a with
  | error fault =>
      rw [ha] at h
      exact .inl ⟨fault, refuses_of_parse_error ha, refuses_of_parse_error h.symm⟩
  | ok path =>
      rw [ha] at h
      exact .inr (o.answers_of_parse_ok ha h.symm)

/-- What a file is called where it is stored is a spelling of the path under which it is seen. -/
theorem display_of_resolve? (h : o.resolve? path = some r) :
    r.entry.path = r.path ∧ Path.parse r.entry.display.text = .ok r.path ∧
      r.path.text = Text.lowercase r.entry.display.text := by
  obtain ⟨-, hentry, hpath⟩ := entry_of_resolve? h
  obtain ⟨-, hordinary⟩ := r.archive.ordinary_display hentry
  have hsame : r.entry.path = r.path := hpath.trans (resolve?_path h).symm
  refine ⟨hsame, ?_, ?_⟩
  · rw [← hsame, r.entry.path_eq, Path.parse, DisplayPath.text,
      DisplayPath.parse_intercalate hordinary]
    rfl
  · rw [← hsame, DisplayPath.text, lowercase_intercalate, Path.text, r.entry.path_segments]

/-- That a file is among the answers of the overlay. -/
inductive Shows (o : Overlay) : Resolved → Prop
  | resolved {raw : String} {r : Resolved} : o.resolve raw = .ok r → Shows o r
  | walked {raw : String} {found : List Resolved} {r : Resolved} :
      o.walk raw = .ok found → r ∈ found → Shows o r
  | conflicting {r : Resolved} : r ∈ o.conflicts → Shows o r

theorem Shows.resolve? (h : o.Shows r) : ∃ path, o.resolve? path = some r := by
  cases h with
  | resolved hresolve => exact resolve?_of_resolve hresolve
  | @walked raw found _ hwalk hr =>
      cases hparse : Path.parse raw with
      | error fault =>
          rw [walk_of_parse_error hparse] at hwalk
          cases hwalk
      | ok dir =>
          rw [eq_allBelow_of_walk hparse hwalk] at hr
          exact ⟨r.path, ((mem_allBelow (Path.canonical_of_parse hparse)).mp hr).2⟩
  | conflicting hr => exact ⟨r.path, (mem_conflicts.mp hr).1⟩

theorem resolve_display (h : o.Shows r) : o.resolve r.entry.display.text = .ok r := by
  obtain ⟨path, hresolve⟩ := h.resolve?
  obtain ⟨-, hparse, -⟩ := display_of_resolve? hresolve
  rw [resolve_of_parse_ok hparse, resolve?_path hresolve, hresolve]

/-- A directory and the name of a member with a slash between them name the member. -/
theorem parse_shown {items : List Item} {item : Item} (h : o.list raw = .ok items)
    (hitem : item ∈ items) : Path.parse (raw ++ "/" ++ item.name) = .ok item.path := by
  cases hparse : Path.parse raw with
  | error fault =>
      rw [list_of_parse_error hparse] at h
      cases h
  | ok dir =>
      rw [list_eq_ok hparse h] at hitem
      obtain ⟨hordinary, hkey⟩ := member_name_ordinary hitem
      rw [Path.parse_append_name hparse hordinary, hkey, (canonical_of_member hitem).1]

end Overlay

/-- Capital letters and their small letters count as the same, and so do both small sigmas. Texts
that are the same but for case and for the kind of slash are read as the same path and answered
alike by every table, if they have final sigmas at the same places. For a single name this is
necessary, too. -/
theorem respelled_answers (a b : String) :
    (∀ c d : Char, Text.partner? c.toNat Text.lowerRuns = some d.toNat →
      SameSpelled c d ∧ SameSpelled d c) ∧
    (Respelled a b →
      (Text.SameFinals a b →
        Path.parse a = Path.parse b ∧ ∀ t : MountTable, t.overlay.AnswersAlike a b) ∧
      (Ordinary a → (Path.parse a = Path.parse b ↔ Text.SameFinals a b))) := by
  constructor
  · intro c d hpartner
    have hletter := Text.sameLetter_of_partner? hpartner
    exact ⟨.inr hletter, .inr hletter.symm⟩
  · intro hrespelled
    constructor
    · intro hfinals
      have hparse := hrespelled.parse_eq hfinals
      exact ⟨hparse, fun t => t.overlay.answersAlike_of_parse_eq hparse⟩
    · intro hordinary
      exact hrespelled.parse_eq_iff hordinary

theorem respelled_answers_sigma :
    Respelled "Odos\\ΟΔΟΣ" "odos/οδος" ∧ Path.parse "Odos\\ΟΔΟΣ" = Path.parse "odos/οδος" ∧
      Respelled "ΟΔΟΣ.TXT" "οδος.txt" ∧ Path.parse "ΟΔΟΣ.TXT" ≠ Path.parse "οδος.txt" := by
  have hfinal : Respelled "Odos\\ΟΔΟΣ" "odos/οδος" := by decide +kernel
  have hinner : Respelled "ΟΔΟΣ.TXT" "οδος.txt" := by decide +kernel
  have hparse : DisplayPath.parse "ΟΔΟΣ.TXT" = .ok ⟨["ΟΔΟΣ.TXT"]⟩ := rfl
  have hordinary : Ordinary "ΟΔΟΣ.TXT" := DisplayPath.ordinary_of_parse hparse _ (by simp)
  obtain ⟨hsame, -⟩ := (respelled_answers _ _).2 hfinal
  obtain ⟨-, hnecessary⟩ := (respelled_answers _ _).2 hinner
  obtain ⟨hequal, -⟩ := hsame (by decide +kernel)
  refine ⟨hfinal, hequal, hinner, ?_⟩
  rw [ne_eq, hnecessary hordinary]
  decide +kernel

/-- After every run, what is shown can be asked for. The stored spelling of a file that is
resolved, met in a walk or in conflict is read as its path and resolves to it; the name of a member
behind that of the directory is read as the path of the member, whichever archive it is taken
from. -/
theorem shown_reads_back (requests : List MountRequest) :
    let o := (MountRun.of requests).table.overlay
    (∀ r, o.Shows r →
      Path.parse r.entry.display.text = .ok r.path ∧ r.entry.path = r.path ∧
        r.path.text = Text.lowercase r.entry.display.text ∧
        o.resolve r.entry.display.text = .ok r) ∧
    ∀ raw items, o.list raw = .ok items → ∀ item ∈ items,
      let shown := raw ++ "/" ++ item.name
      Path.parse shown = .ok item.path ∧
        o.resolve shown = o.resolve item.path.text ∧ o.holds shown = o.holds item.path.text ∧
        o.list shown = o.list item.path.text ∧ o.walk shown = o.walk item.path.text := by
  intro o
  constructor
  · intro r hshows
    obtain ⟨path, hresolve⟩ := hshows.resolve?
    obtain ⟨hpath, hparse, htext⟩ := Overlay.display_of_resolve? hresolve
    exact ⟨hparse, hpath, htext, Overlay.resolve_display hshows⟩
  · intro raw items hlist item hitem shown
    have hshown := Overlay.parse_shown hlist hitem
    refine ⟨hshown, o.answers_of_parse_ok hshown (Path.parse_text ?_)⟩
    exact Path.canonical_of_parse hshown

/-- The name that is shown may be that of a directory in another archive than the file's. -/
theorem shown_reads_back_mixed : ∃ base mod item r,
    Archive.ofMemory ⟨"base"⟩ [.faithful "wall" ⟨#[1]⟩] = .ok base ∧
    Archive.ofMemory ⟨"mod"⟩ [.faithful "WALL/x" ⟨#[2]⟩] = .ok mod ∧
    let o := (MountRun.of [.mount base 0, .mount mod 5]).table.overlay
    o.list "" = .ok [item] ∧ item.name = "WALL" ∧ r.winner = ⟨"base"⟩ ∧
    Path.parse ("" ++ "/" ++ item.name) = .ok item.path ∧
    o.resolve ("" ++ "/" ++ item.name) = .ok r ∧ o.resolve r.entry.display.text = .ok r := by
  have hload : ∃ base mod item r,
      Archive.ofMemory ⟨"base"⟩ [.faithful "wall" ⟨#[1]⟩] = .ok base ∧
      Archive.ofMemory ⟨"mod"⟩ [.faithful "WALL/x" ⟨#[2]⟩] = .ok mod ∧
      (MountRun.of [.mount base 0, .mount mod 5]).table.overlay.list "" = .ok [item] ∧
      item.name = "WALL" ∧ item.path.text = "wall" ∧ r.winner = ⟨"base"⟩ ∧
      (MountRun.of [.mount base 0, .mount mod 5]).table.overlay.resolve "wall" = .ok r :=
    ⟨_, _, _, _, rfl, rfl, rfl, rfl, rfl, rfl, rfl⟩
  obtain ⟨base, mod, item, r, hbase, hmod, hlist, hname, htext, hwinner, hresolve⟩ := hload
  obtain ⟨hshows, hmembers⟩ := shown_reads_back [.mount base 0, .mount mod 5]
  obtain ⟨hparse, hsame, -⟩ := hmembers "" [item] hlist item (by simp)
  obtain ⟨-, -, -, hdisplay⟩ := hshows r (.resolved hresolve)
  rw [htext, hresolve] at hsame
  exact ⟨base, mod, item, r, hbase, hmod, hlist, hname, hwinner, hparse, hsame, hdisplay⟩

end ArchiveOverlay
