import ArchiveOverlay.Command.Configure
import ArchiveOverlay.Proofs.Disk.Frame
import ArchiveOverlay.Proofs.Toml.Lines

namespace ArchiveOverlay

namespace Settings

open Toml

/-- A line as it is saved, with what comes behind it. -/
def savedLine (key : String) (value rest : List Char) : List Char :=
  key.toList ++ ' ' :: '=' :: ' ' :: (value ++ '\n' :: rest)

theorem toList_savedLine (key value : String) (rest : List Char) :
    (key ++ " = " ++ value ++ "\n").toList ++ rest = savedLine key value.toList rest := by
  simp [savedLine]

/-- The line on verification. -/
def verifyLine (verify : Bool) : List Char :=
  savedLine "verify_checksums" (if verify then "true" else "false").toList []

/-- The line on the profile, with what comes behind it. -/
def profileLine (path : String) (rest : List Char) : List Char :=
  savedLine "default_profile" (writeString path.toList) rest

theorem toList_render_none (verify : Bool) :
    (render ⟨none, verify⟩).toList = verifyLine verify := by
  have hkey : "verify_checksums = " = "verify_checksums" ++ " = " := rfl
  rw [render, hkey, String.empty_append, verifyLine, ← toList_savedLine, List.append_nil]

theorem toList_render_some (path : String) (verify : Bool) :
    (render ⟨some path, verify⟩).toList = profileLine path (verifyLine verify) := by
  have hkey : "default_profile = " = "default_profile" ++ " = " := rfl
  have hline := toList_savedLine "default_profile" (String.ofList (writeString path.toList))
    (render ⟨none, verify⟩).toList
  rw [String.toList_ofList, ← String.toList_append] at hline
  rw [profileLine, ← toList_render_none, ← hline, render, render, hkey]
  simp only [String.append_assoc, String.empty_append]

/-- A saved line adds its key to what has been read, if it is not there yet. -/
theorem lines?_savedLine (fuel : Nat) {key : String} {value rest : List Char} {v : Value}
    {root : Fields} (hne : key.toList ≠ []) (hbare : ∀ c ∈ key.toList, isBareKeyChar c = true)
    (hstart : skipSpaces (value ++ '\n' :: rest) = value ++ '\n' :: rest)
    (hvalue : value? (depthLimit - 1) (value ++ '\n' :: rest) = some (v, '\n' :: rest))
    (hkey : root.lookup key = none) :
    lines? (fuel + 1) ⟨root, []⟩ (savedLine key value rest) =
      lines? fuel ⟨root ++ [(key, v)], []⟩ rest := by
  have hread := line?_assignment hne hbare hstart hvalue
  rw [String.ofList_toList] at hread
  exact lines?_line hread (List.append_ne_nil_of_left_ne_nil hne _) (add_assignment v hkey)

theorem bare_verify : ∀ c ∈ "verify_checksums".toList, isBareKeyChar c = true :=
  List.all_eq_true.mp rfl

theorem bare_profile : ∀ c ∈ "default_profile".toList, isBareKeyChar c = true :=
  List.all_eq_true.mp rfl

theorem lines?_verifyLine (verify : Bool) (fuel : Nat) {root : Fields}
    (hkey : root.lookup "verify_checksums" = none) :
    lines? (fuel + 1) ⟨root, []⟩ (verifyLine verify) =
      some ⟨root ++ [("verify_checksums", .boolean verify)], []⟩ := by
  have hline : lines? (fuel + 1) ⟨root, []⟩ (verifyLine verify) =
      lines? fuel ⟨root ++ [("verify_checksums", .boolean verify)], []⟩ [] := by
    cases verify with
    | true => exact lines?_savedLine fuel (by decide) bare_verify rfl rfl hkey
    | false => exact lines?_savedLine fuel (by decide) bare_verify rfl rfl hkey
  rw [hline, lines?]

theorem lines?_profileLine (path : String) (fuel : Nat) (rest : List Char) :
    lines? (fuel + 1) ⟨[], []⟩ (profileLine path rest) =
      lines? fuel ⟨[("default_profile", .string path)], []⟩ rest := by
  have hends : EndsString ('\n' :: rest) := ⟨by simp, by simp⟩
  have hvalue := value?_writeString path.toList hends
  rw [String.ofList_toList] at hvalue
  refine lines?_savedLine fuel (by decide) bare_profile ?_ hvalue rfl
  obtain ⟨tail, hquote | hquote⟩ := exists_writeString path.toList
  all_goals
    rw [hquote]
    rfl

theorem parse?_savedLine {text key : String} {value rest : List Char} {d : Draft}
    (hne : key.toList ≠ []) (hbare : ∀ c ∈ key.toList, isBareKeyChar c = true)
    (htext : text.toList = savedLine key value rest)
    (hlines : ∀ n, lines? (n + 2) ⟨[], []⟩ (savedLine key value rest) = some d) :
    parse? text = some d.root := by
  have hlength : 2 ≤ (savedLine key value rest).length := by
    simp only [savedLine, List.length_append, List.length_cons]
    omega
  obtain ⟨n, hn⟩ := Nat.exists_eq_add_of_le' hlength
  have hread := hlines n
  rw [← hn] at hread
  exact parse?_of_bare hne hbare htext hread

/-- What is written reads back. -/
theorem parse_render (s : Settings) : parse s.render = s := by
  rcases s with ⟨_ | path, verify⟩
  · have hfields : parse? (render ⟨none, verify⟩) = some [("verify_checksums", .boolean verify)] :=
      parse?_savedLine (by decide) bare_verify (toList_render_none verify)
        fun n => lines?_verifyLine verify (n + 1) rfl
    rw [parse, hfields]
    rfl
  · have hfields : parse? (render ⟨some path, verify⟩) =
        some [("default_profile", .string path), ("verify_checksums", .boolean verify)] :=
      parse?_savedLine (by decide) bare_profile (toList_render_some path verify)
        fun n => (lines?_profileLine path (n + 1) _).trans (lines?_verifyLine verify n rfl)
    rw [parse, hfields]
    rfl

variable {d s : Disk} {path : String}

theorem load_of_fileContent {settings : Settings}
    (h : d.fileContent path = .ok settings.render.toUTF8) :
    load d path = settings := by
  have hread : (d.fileContent path).toOption.bind String.fromUTF8? = some settings.render := by
    rw [h]
    exact dif_pos settings.render.isValidUTF8
  rw [load, hread]
  exact parse_render settings

theorem save_ok {settings : Settings} (hd : d.Proper)
    (hordinary : ∀ place, d.find path ≠ .ok (place, .file .null))
    (h : save d path settings = .ok s) : s.Proper ∧ load s path = settings := by
  rw [save] at h
  cases hwrite : d.writeFile path settings.render.toUTF8 with
  | error fault =>
    rw [hwrite] at h
    cases h
  | ok written =>
    rw [hwrite] at h
    cases h
    obtain ⟨hproper, hcontent⟩ := Disk.writeFile_ok hd hordinary hwrite
    exact ⟨hproper, load_of_fileContent hcontent⟩

/-- What a command does that changes the settings in a file: if it succeeds, the file shows the new
ones. -/
def Changes (d : Disk) (path : String) (change : Settings → Settings) (o : CommandOutcome) :
    Prop :=
  o.result = .ok () → o.disk.Proper ∧ load o.disk path = change (load d path)

theorem changes_setVerify (hd : d.Proper)
    (hordinary : ∀ place, d.find path ≠ .ok (place, .file .null)) (coloured enabled : Bool) :
    Changes d path (fun s => { s with verifyChecksums := enabled })
      (setVerify d path coloured enabled) := by
  unfold setVerify
  split
  next e hupdate => exact nofun
  next s hupdate => exact fun _ => save_ok hd hordinary hupdate

theorem changes_setProfile (hd : d.Proper)
    (hordinary : ∀ place, d.find path ≠ .ok (place, .file .null)) (coloured : Bool)
    (profile : String) :
    Changes d path
      (fun s => { s with defaultProfile := some ((d.canonical profile).toOption.getD profile) })
      (setProfile d path coloured profile) := by
  unfold setProfile
  split
  next e hload => exact nofun
  next hload =>
    dsimp only
    split
    next e hupdate => exact nofun
    next s hupdate => exact fun _ => save_ok hd hordinary hupdate

end Settings

/-- What is saved reads back as it was, and a command that changes one setting keeps the other one,
wherever the settings are in an ordinary file. -/
theorem settings_remembered (settings : Settings) {d : Disk} (hd : d.Proper) {path : String}
    (hordinary : ∀ place, d.find path ≠ .ok (place, .file .null)) (profile : String)
    (coloured enabled : Bool) :
    Settings.parse settings.render = settings ∧
      Settings.Changes d path (fun s => { s with verifyChecksums := enabled })
        (Settings.setVerify d path coloured enabled) ∧
      Settings.Changes d path
        (fun s => { s with defaultProfile := some ((d.canonical profile).toOption.getD profile) })
        (Settings.setProfile d path coloured profile) :=
  ⟨settings.parse_render, Settings.changes_setVerify hd hordinary coloured enabled,
    Settings.changes_setProfile hd hordinary coloured profile⟩

/-- A disk with one file. -/
def Disk.withSettings (content : ByteArray) : Disk where
  nodes := [(["settings"], .file (.regular 0))]
  contents := [(0, content)]

theorem Disk.locate_withSettings (content : ByteArray) :
    (withSettings content).locate "settings" true =
      .ok ⟨["settings"], some (.file (.regular 0))⟩ := by
  have hpieces : pathPieces "settings" = ["settings"] := rfl
  have hname : Nameable "settings" := ⟨by decide, by decide, by decide, by decide⟩
  rw [locate_eq ⟨by decide, by decide, by decide⟩, hpieces, follow_name hname]
  rfl

/-- A profile with quotes of both kinds and a line break is still there when verification is
switched on. -/
theorem settings_remembered_quotes :
    let d := Disk.withSettings (Settings.render ⟨some "it's\n\"\\here", false⟩).toUTF8
    let o := Settings.setVerify d "settings" false true
    d.Proper ∧ o.result = .ok () ∧
      Settings.load o.disk "settings" = ⟨some "it's\n\"\\here", true⟩ := by
  intro d o
  have hd : d.Proper := Disk.proper_of_places (List.forall_mem_singleton.mpr rfl) rfl
  have hlocate : d.locate "settings" true = .ok ⟨["settings"], some (.file (.regular 0))⟩ :=
    Disk.locate_withSettings _
  have hfind := Disk.find_of_locate_file hlocate
  have hordinary : ∀ place, d.find "settings" ≠ .ok (place, .file .null) := by
    intro place hnull
    cases hfind.symm.trans hnull
  have hload : Settings.load d "settings" = ⟨some "it's\n\"\\here", false⟩ := by
    apply Settings.load_of_fileContent
    rw [Disk.fileContent, hfind]
    rfl
  have hresult : o.result = .ok () := by
    obtain ⟨after, hupdate⟩ : ∃ after,
        Settings.update d "settings" (fun s => { s with verifyChecksums := true }) =
          .ok after := by
      have hslashes : Disk.withoutLastSlashes "settings" = "settings" := rfl
      rw [Settings.update, Settings.save, Disk.writeFile, Disk.createFile, hslashes, hlocate]
      exact ⟨_, rfl⟩
    change (Settings.setVerify d "settings" false true).result = _
    unfold Settings.setVerify
    rw [hupdate]
  obtain ⟨-, hchanges, -⟩ := settings_remembered .initial hd hordinary "" false true
  have hafter := (hchanges hresult).2
  rw [hload] at hafter
  exact ⟨hd, hresult, hafter⟩

end ArchiveOverlay
