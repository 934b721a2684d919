import ArchiveOverlay.Disk.Resolve
import ArchiveOverlay.Proofs.Path.Reading
import Mathlib.Data.List.Induction

namespace ArchiveOverlay

theorem Ordinary.not_isSlash {s : String} (h : Ordinary s) : ∀ c ∈ s.toList, c ≠ '/' := by
  rintro c hc rfl
  have hplain := (h.plain _ hc).1
  simp [isSeparator] at hplain

namespace HostPath

theorem pieces_ne_nil (cs : List Char) : pieces cs ≠ [] := by
  cases cs with
  | nil => simp [pieces]
  | cons c cs =>
      rw [pieces]
      split
      · simp
      · split <;> simp

theorem pieces_append (cs rest : List Char) :
    pieces (cs ++ '/' :: rest) = pieces cs ++ pieces rest := by
  induction cs with
  | nil => simp [pieces]
  | cons c cs ih =>
      rw [List.cons_append, pieces, pieces, ih]
      split
      · rfl
      · obtain ⟨piece, more, hpieces⟩ := List.exists_cons_of_ne_nil (pieces_ne_nil cs)
        rw [hpieces]
        rfl

theorem pieces_of_plain {cs : List Char} (h : ∀ c ∈ cs, c ≠ '/') : pieces cs = [cs] := by
  induction cs with
  | nil => rfl
  | cons c cs ih =>
      rw [pieces, if_neg (h c (by simp)), ih fun d hd => h d (by simp [hd])]

theorem pathPieces_append (dir path : String) :
    Disk.pathPieces (dir ++ "/" ++ path) = Disk.pathPieces dir ++ Disk.pathPieces path := by
  have hlist : (dir ++ "/" ++ path).toList = dir.toList ++ '/' :: path.toList := by
    simp [String.toList_append]
  rw [Disk.pathPieces, hlist, pieces_append, List.map_append]
  rfl

theorem pathPieces_ordinary {name : String} (h : Ordinary name) :
    Disk.pathPieces name = [name] := by
  rw [Disk.pathPieces, pieces_of_plain h.not_isSlash]
  simp

theorem exists_of_getLast?_slash {dir : String} (h : dir.toList.getLast? = some '/') :
    ∃ front, dir = front ++ "/" := by
  obtain ⟨front, hfront⟩ := List.getLast?_eq_some_iff.mp h
  refine ⟨String.ofList front, ?_⟩
  rw [← String.toList_inj, hfront]
  simp [String.toList_append]

/-- Joining as appending: the front of the directory is all of it but for a slash at the end. -/
theorem join_cases {dir : String} (hdir : dir ≠ "") :
    ∃ front, (dir = front ∨ dir = front ++ "/") ∧
      ∀ path, isAbsolute path = false → join dir path = front ++ "/" ++ path := by
  by_cases hslash : dir.toList.getLast? = some '/'
  · obtain ⟨front, rfl⟩ := exists_of_getLast?_slash hslash
    refine ⟨front, .inr rfl, fun path hpath => ?_⟩
    rw [join, if_neg (by simp [hpath, hdir]), if_pos hslash]
  · refine ⟨dir, .inl rfl, fun path hpath => ?_⟩
    rw [join, if_neg (by simp [hpath, hdir]), if_neg hslash]

theorem join_empty (path : String) : join "" path = path := by
  simp [join]

/-- The names that a path goes through, without what stands still. -/
def components (path : String) : List String :=
  (Disk.pathPieces path).filter fun piece => piece ≠ "" ∧ piece ≠ "."

theorem components_append (dir path : String) :
    components (dir ++ "/" ++ path) = components dir ++ components path := by
  rw [components, pathPieces_append, List.filter_append]
  rfl

theorem components_empty : components "" = [] := by
  simp [components, Disk.pathPieces, pieces]

theorem components_slash (dir : String) : components (dir ++ "/") = components dir := by
  have hend := components_append dir ""
  rwa [components_empty, List.append_nil, String.append_empty] at hend

theorem components_ordinary {name : String} (h : Ordinary name) : components name = [name] := by
  rw [components, pathPieces_ordinary h]
  simp [h.ne_empty, h.ne_dot]

theorem components_join {dir path : String} (hpath : isAbsolute path = false) :
    components (join dir path) = components dir ++ components path := by
  by_cases hdir : dir = ""
  · rw [hdir, join_empty, components_empty, List.nil_append]
  · obtain ⟨front, hfront, hjoin⟩ := join_cases hdir
    rw [hjoin path hpath, components_append]
    rcases hfront with rfl | rfl
    · rfl
    · rw [components_slash]

theorem isAbsolute_ordinary {name : String} (h : Ordinary name) : isAbsolute name = false := by
  rw [isAbsolute, decide_eq_false_iff_not]
  intro hhead
  exact h.not_isSlash _ (List.mem_of_head? hhead) rfl

theorem isAbsolute_join {dir path : String} (hpath : isAbsolute path = false) :
    isAbsolute (join dir path) = isAbsolute dir := by
  by_cases hdir : dir = ""
  · rw [hdir, join_empty, hpath]
    rfl
  · have hne : dir.toList ≠ [] := by simpa using hdir
    obtain ⟨c, cs, hcs⟩ := List.exists_cons_of_ne_nil hne
    unfold join
    split
    next hcond => simp [hpath, hdir] at hcond
    · split
      · simp [isAbsolute, String.toList_append, hcs]
      · simp [isAbsolute, String.toList_append, hcs]

theorem components_foldl_join {names : List String} (h : ∀ name ∈ names, Ordinary name)
    (dir : String) :
    components (names.foldl join dir) = components dir ++ names ∧
      isAbsolute (names.foldl join dir) = isAbsolute dir := by
  induction names generalizing dir with
  | nil => simp
  | cons name names ih =>
      have hname := h name (by simp)
      have habsolute := isAbsolute_ordinary hname
      obtain ⟨hcomponents, hstart⟩ := ih (fun other hother => h other (by simp [hother]))
        (join dir name)
      rw [List.foldl_cons, hcomponents, hstart, components_join habsolute,
        components_ordinary hname, isAbsolute_join habsolute]
      simp

theorem prefix_join (dir : String) {path : String} (hpath : isAbsolute path = false)
    (hne : path ≠ "") :
    dir.toList <+: (join dir path).toList ∧ dir.length < (join dir path).length := by
  have hlength : 0 < path.length := by
    rw [← String.length_toList, List.length_pos_iff]
    exact mt String.toList_eq_nil_iff.mp hne
  unfold join
  split
  next hcond =>
    obtain rfl : dir = "" := by simpa [hpath] using hcond
    simp [hlength]
  · split
    · simp [String.toList_append, hlength]
    · simp [String.toList_append]
      omega

theorem not_mem_join {c : Char} (hc : c ≠ '/') {dir path : String} (hdir : c ∉ dir.toList)
    (hpath : c ∉ path.toList) : c ∉ (join dir path).toList := by
  unfold join
  split
  · exact hpath
  · split
    · simp [String.toList_append, hdir, hpath]
    · simp [String.toList_append, hdir, hpath, hc]

theorem prefix_foldl_join {names : List String} (h : ∀ name ∈ names, Ordinary name)
    (dir : String) :
    dir.toList <+: (names.foldl join dir).toList ∧
      dir.length + names.length ≤ (names.foldl join dir).length := by
  induction names generalizing dir with
  | nil => simp
  | cons name names ih =>
      have hname := h name (by simp)
      obtain ⟨hbegins, hlength⟩ := prefix_join dir (isAbsolute_ordinary hname) hname.ne_empty
      obtain ⟨hmore, hlonger⟩ :=
        ih (fun other hother => h other (by simp [hother])) (join dir name)
      refine ⟨hbegins.trans hmore, ?_⟩
      rw [List.foldl_cons, List.length_cons]
      omega

/-- A path with a name at its end and no slash behind it. -/
structure EndsInName (path : String) : Prop where
  ne_empty : path ≠ ""
  last : path.toList.getLast? ≠ some '/'

theorem EndsInName.of_ordinary {name : String} (h : Ordinary name) : EndsInName name where
  ne_empty := h.ne_empty
  last := fun hslash => h.not_isSlash _ (List.mem_of_getLast? hslash) rfl

theorem EndsInName.append {front path : String} (h : EndsInName path) :
    EndsInName (front ++ "/" ++ path) := by
  have hlist : path.toList ≠ [] := by simpa using h.ne_empty
  constructor
  · intro hempty
    have hnil : (front ++ "/" ++ path).toList = [] := by rw [hempty]; rfl
    simp only [String.toList_append, List.append_eq_nil_iff] at hnil
    exact hlist hnil.2
  · rw [String.toList_append, List.getLast?_append_of_ne_nil _ hlist]
    exact h.last

theorem EndsInName.join {dir path : String} (hpath : isAbsolute path = false)
    (h : EndsInName path) :
    EndsInName (join dir path) := by
  by_cases hdir : dir = ""
  · rwa [hdir, join_empty]
  · obtain ⟨front, -, hjoin⟩ := join_cases hdir
    rw [hjoin path hpath]
    exact h.append

theorem EndsInName.join_eq {dir path : String} (h : EndsInName dir)
    (hpath : isAbsolute path = false) : HostPath.join dir path = dir ++ "/" ++ path := by
  rw [HostPath.join, if_neg (by simp [hpath, h.ne_empty]), if_neg h.last]

theorem join_join {dir front name : String} (hdir : dir ≠ "") (hfront : isAbsolute front = false)
    (hend : EndsInName front) (hname : isAbsolute name = false) :
    join dir (join front name) = join (join dir front) name := by
  obtain ⟨start, -, hjoin⟩ := join_cases hdir
  have hinner : isAbsolute (join front name) = false := by rw [isAbsolute_join hname, hfront]
  rw [hjoin _ hinner, hend.join_eq hname, (hend.join hfront).join_eq hname, hjoin _ hfront]
  simp only [String.append_assoc]

theorem join_foldl_join {dir front : String} {names : List String} (hdir : dir ≠ "")
    (hfront : isAbsolute front = false) (hend : EndsInName front)
    (h : ∀ name ∈ names, Ordinary name) :
    join dir (names.foldl join front) = names.foldl join (join dir front) := by
  induction names generalizing front with
  | nil => rfl
  | cons name names ih =>
      have hname := h name (by simp)
      have habsolute := isAbsolute_ordinary hname
      have hfront' : isAbsolute (join front name) = false := by
        rw [isAbsolute_join habsolute, hfront]
      have hend' : EndsInName (join front name) := (EndsInName.of_ordinary hname).join habsolute
      rw [List.foldl_cons, List.foldl_cons,
        ih hfront' hend' fun other hother => h other (by simp [hother]),
        join_join hdir hfront hend habsolute]

theorem EndsInName.foldl_join {dir : String} {names : List String} (hne : names ≠ [])
    (h : ∀ name ∈ names, Ordinary name) : EndsInName (names.foldl HostPath.join dir) := by
  have hlast := h _ (List.getLast_mem hne)
  rw [← List.dropLast_append_getLast hne, List.foldl_concat]
  exact (EndsInName.of_ordinary hlast).join (isAbsolute_ordinary hlast)

/-- The pieces of a path with names behind it. A slash at the end of the path is used up. -/
theorem pathPieces_foldl_join {dir : String} {names : List String} (hdir : dir ≠ "")
    (hne : names ≠ []) (h : ∀ name ∈ names, Ordinary name) :
    ∃ front, Disk.pathPieces (names.foldl join dir) = front ++ names ∧
      (Disk.pathPieces dir = front ∨ Disk.pathPieces dir = front ++ [""]) := by
  induction names using List.reverseRecOn with
  | nil => exact absurd rfl hne
  | append_singleton names name ih =>
      have hname := h name (by simp)
      have habsolute := isAbsolute_ordinary hname
      rw [List.foldl_concat]
      by_cases hnames : names = []
      · obtain ⟨start, hstart, hjoin⟩ := join_cases hdir
        refine ⟨Disk.pathPieces start, ?_, ?_⟩
        · rw [hnames, List.foldl_nil, hjoin name habsolute, pathPieces_append,
            pathPieces_ordinary hname, List.nil_append]
        · rcases hstart with rfl | rfl
          · exact .inl rfl
          · have hend := pathPieces_append start ""
            rw [String.append_empty] at hend
            exact .inr hend
      · have hordinary : ∀ other ∈ names, Ordinary other := fun other hother =>
          h other (by simp [hother])
        obtain ⟨front, hpieces, hfront⟩ := ih hnames hordinary
        refine ⟨front, ?_, hfront⟩
        rw [(EndsInName.foldl_join hnames hordinary).join_eq habsolute, pathPieces_append, hpieces,
          pathPieces_ordinary hname, List.append_assoc]

theorem trimBackwards_suffix (rooted : Bool) (cs : List Char) :
    trimBackwards rooted cs <:+ cs := by
  fun_induction trimBackwards rooted cs with
  | case1 rest ih => exact ih.trans (List.suffix_cons _ _)
  | case2 => exact List.nil_suffix
  | case3 => exact List.suffix_refl _
  | case4 rest ih => exact ih.trans (List.suffix_cons _ _)
  | case5 s => exact List.suffix_refl _

theorem trimBackwards_name {name : String} (h : Ordinary name) (rooted : Bool) (more : List Char) :
    trimBackwards rooted (name.toList.reverse ++ more) = name.toList.reverse ++ more := by
  have hslash := h.not_isSlash
  have hback : ∀ c ∈ name.toList.reverse, c ≠ '/' := fun c hc => hslash c (List.mem_reverse.mp hc)
  cases hrev : name.toList.reverse with
  | nil =>
      have hnil : name.toList = [] := by simpa using hrev
      exact absurd (String.toList_eq_nil_iff.mp hnil) h.ne_empty
  | cons c cs =>
      rw [hrev] at hback
      have hc : c ≠ '/' := hback c (by simp)
      cases cs with
      | nil =>
          have hdot : c ≠ '.' := by
            rintro rfl
            have hlist : name.toList = ['.'] := by
              rw [← List.reverse_reverse name.toList, hrev]
              rfl
            exact h.ne_dot (String.toList_inj.mp hlist)
          rw [trimBackwards.eq_def]
          split <;> simp_all
      | cons next cs =>
          have hnext : next ≠ '/' := hback next (by simp)
          rw [trimBackwards.eq_def]
          split <;> simp_all

/-- A path put together again after it has been taken apart. -/
def trimmed (path : String) : String :=
  String.ofList
    (if (takeApart path).1 then '/' :: (takeApart path).2.reverse else (takeApart path).2.reverse)

theorem takeApart_rooted {path : String} {rest : List Char} (h : path.toList = '/' :: rest) :
    takeApart path = (true, trimBackwards true rest.reverse) := by
  simp [takeApart, h]

theorem takeApart_unrooted {path : String} (h : path.toList.head? ≠ some '/') :
    takeApart path = (false, trimBackwards false path.toList.reverse) := by
  rw [takeApart]
  split
  next heq => simp [heq] at h
  next => rfl

/-- A slash at the end is trimmed, unless it is all there is. -/
theorem takeApart_slash {front : String} (hfront : front ≠ "") :
    takeApart (front ++ "/") = takeApart front := by
  have hlist : (front ++ "/").toList = front.toList ++ ['/'] := by simp [String.toList_append]
  obtain ⟨c, rest, hrest⟩ := List.exists_cons_of_ne_nil (mt String.toList_eq_nil_iff.mp hfront)
  by_cases hc : c = '/'
  · subst hc
    have hslash : (front ++ "/").toList = '/' :: (rest ++ ['/']) := by
      rw [hlist, hrest]
      rfl
    rw [takeApart_rooted hrest, takeApart_rooted hslash, List.reverse_append]
    rfl
  · rw [takeApart_unrooted (by simpa [hrest] using hc),
      takeApart_unrooted (by simpa [hlist, hrest] using hc), hlist, List.reverse_append]
    rfl

theorem dropWhile_name {name : String} (h : Ordinary name) (more : List Char) :
    (name.toList.reverse ++ more).dropWhile (fun c => decide (c ≠ '/')) =
      more.dropWhile fun c => decide (c ≠ '/') := by
  apply List.dropWhile_append_of_pos
  intro c hc
  simpa using h.not_isSlash c (List.mem_reverse.mp hc)

theorem parent?_of_takeApart {path name : String} {rooted : Bool} {body : List Char}
    (h : Ordinary name)
    (hpath : takeApart path =
      (rooted, trimBackwards rooted (body ++ '/' :: name.toList).reverse)) :
    parent? path = some (String.ofList
      (if rooted then '/' :: (trimBackwards rooted body.reverse).reverse
        else (trimBackwards rooted body.reverse).reverse)) := by
  have hback : (body ++ '/' :: name.toList).reverse =
      name.toList.reverse ++ '/' :: body.reverse := by simp
  rw [hback, trimBackwards_name h] at hpath
  rw [parent?, hpath]
  split
  next heq => simp at heq
  next rooted' s _ heq =>
    obtain ⟨rfl, rfl⟩ := Prod.mk.inj heq
    rw [dropWhile_name h, List.dropWhile_cons_of_neg (by simp), trimBackwards]

/-- Without its last name a path is what stood before the name, trimmed. -/
theorem parent?_join {dir name : String} (hdir : dir ≠ "") (h : Ordinary name) :
    parent? (join dir name) = some (trimmed dir) := by
  obtain ⟨front, hfront, hjoin⟩ := join_cases hdir
  have hlist : (join dir name).toList = front.toList ++ '/' :: name.toList := by
    rw [hjoin name (isAbsolute_ordinary h)]
    simp [String.toList_append]
  by_cases hempty : front = ""
  · -- Only the root is left before the name.
    have hroot : dir = "/" := by
      rcases hfront with rfl | rfl
      · exact absurd hempty hdir
      · rw [hempty]
        rfl
    have hpath : (join dir name).toList = '/' :: name.toList := by
      rw [hlist, hempty]
      rfl
    have htrim := trimBackwards_name h true []
    have hdrop := dropWhile_name h []
    rw [List.append_nil] at htrim hdrop
    rw [parent?, takeApart_rooted hpath, htrim]
    split
    next heq => simp [h.ne_empty] at heq
    next rooted s _ heq =>
      obtain ⟨rfl, rfl⟩ := Prod.mk.inj heq
      rw [hdrop, hroot]
      rfl
  · have htrimmed : takeApart dir = takeApart front := by
      rcases hfront with rfl | rfl
      · rfl
      · exact takeApart_slash hempty
    obtain ⟨c, rest, hrest⟩ := List.exists_cons_of_ne_nil (mt String.toList_eq_nil_iff.mp hempty)
    rw [trimmed, htrimmed]
    by_cases hc : c = '/'
    · subst hc
      have hpath : (join dir name).toList = '/' :: (rest ++ '/' :: name.toList) := by
        rw [hlist, hrest]
        rfl
      rw [parent?_of_takeApart h (takeApart_rooted hpath), takeApart_rooted hrest]
    · have hpath : (join dir name).toList.head? ≠ some '/' := by
        simpa [hlist, hrest] using hc
      have hapart := takeApart_unrooted hpath
      rw [hlist] at hapart
      rw [parent?_of_takeApart h hapart, takeApart_unrooted (by simpa [hrest] using hc)]

theorem trimmed_join {dir name : String} (h : Ordinary name) :
    trimmed (join dir name) = join dir name := by
  have habsolute := isAbsolute_ordinary h
  have hlist : ∃ front, (join dir name).toList = front ++ name.toList := by
    by_cases hdir : dir = ""
    · exact ⟨[], by rw [hdir, join_empty]; rfl⟩
    · obtain ⟨front, -, hjoin⟩ := join_cases hdir
      exact ⟨front.toList ++ ['/'], by rw [hjoin name habsolute]; simp [String.toList_append]⟩
  obtain ⟨front, hfront⟩ := hlist
  rw [← String.toList_inj, trimmed, String.toList_ofList]
  by_cases hhead : (join dir name).toList.head? = some '/'
  · cases front with
    | nil =>
        rw [hfront, List.nil_append] at hhead
        exact absurd rfl (h.not_isSlash _ (List.mem_of_head? hhead))
    | cons c front =>
        obtain rfl : c = '/' := by simpa [hfront] using hhead
        rw [List.cons_append] at hfront
        rw [takeApart_rooted hfront, List.reverse_append, trimBackwards_name h, hfront]
        simp
  · rw [takeApart_unrooted hhead, hfront, List.reverse_append, trimBackwards_name h]
    simp

theorem trimmed_foldl_join {names : List String} (h : ∀ name ∈ names, Ordinary name)
    (hne : names ≠ []) (dir : String) : trimmed (names.foldl join dir) = names.foldl join dir := by
  rw [← List.dropLast_append_getLast hne, List.foldl_concat,
    trimmed_join (h _ (List.getLast_mem hne))]

/-- A piece of a path that leads nowhere else. -/
def Still (piece : String) : Prop :=
  piece = "" ∨ piece = "."

/-- Two rows of pieces that differ at most in how they stand still at the end. -/
def SameWay (p q : List String) : Prop :=
  ∃ front stills stills', p = front ++ stills ∧ q = front ++ stills' ∧
    (∀ piece ∈ stills, Still piece) ∧ ∀ piece ∈ stills', Still piece

theorem SameWay.refl (p : List String) : SameWay p p :=
  ⟨p, [], [], by simp, by simp, by simp, by simp⟩

theorem SameWay.append_left {p q : List String} (h : SameWay p q) {piece : String}
    (hpiece : Still piece) : SameWay (p ++ [piece]) q := by
  obtain ⟨front, stills, stills', rfl, rfl, hstills, hstills'⟩ := h
  refine ⟨front, stills ++ [piece], stills', by simp, rfl, ?_, hstills'⟩
  intro other hother
  rcases List.mem_append.mp hother with hother | hother
  · exact hstills other hother
  · rwa [List.mem_singleton.mp hother]

theorem SameWay.cons {p q : List String} (h : SameWay p q) (piece : String) :
    SameWay (piece :: p) (piece :: q) := by
  obtain ⟨front, stills, stills', rfl, rfl, hstills⟩ := h
  exact ⟨piece :: front, stills, stills', rfl, rfl, hstills⟩

theorem sameWay_trimBackwards (rooted : Bool) (cs : List Char) :
    SameWay ((pieces cs.reverse).map String.ofList)
      ((pieces (trimBackwards rooted cs).reverse).map String.ofList) := by
  -- A piece that stands still goes together with the slash before it, so two characters at a time.
  induction hlength : cs.length using Nat.strong_induction_on generalizing cs with
  | _ length ih =>
      fun_cases trimBackwards rooted cs with
      | case1 rest =>
          have hrest := ih rest.length (by simp [← hlength]) rest rfl
          have hsplit : ('/' :: rest).reverse = rest.reverse ++ '/' :: [] := by simp
          rw [hsplit, pieces_append, List.map_append]
          exact hrest.append_left (.inl rfl)
      | case2 hrooted => exact ⟨[], ["."], [""], rfl, rfl, by simp [Still], by simp [Still]⟩
      | case3 hrooted => exact SameWay.refl _
      | case4 rest =>
          have hshorter : rest.length < length := by
            rw [← hlength, List.length_cons, List.length_cons]
            omega
          have hrest := ih rest.length hshorter rest rfl
          have hsplit : ('.' :: '/' :: rest).reverse = rest.reverse ++ '/' :: ['.'] := by simp
          rw [hsplit, pieces_append, List.map_append, trimBackwards]
          exact hrest.append_left (.inr rfl)
      | case5 => exact SameWay.refl _

/-- Trimming a path does not change where it leads, and what is left is the beginning of it. -/
theorem sameWay_trimmed (path : String) :
    SameWay (Disk.pathPieces path) (Disk.pathPieces (trimmed path)) ∧
      (trimmed path).toList <+: path.toList := by
  by_cases hhead : path.toList.head? = some '/'
  · cases hpath : path.toList with
    | nil => simp [hpath] at hhead
    | cons c rest =>
        obtain rfl : c = '/' := by simpa [hpath] using hhead
        have hway := sameWay_trimBackwards true rest.reverse
        rw [List.reverse_reverse] at hway
        rw [Disk.pathPieces, Disk.pathPieces, trimmed, takeApart_rooted hpath, hpath,
          String.toList_ofList]
        refine ⟨?_, ?_⟩
        · simpa [pieces] using hway.cons ""
        · simpa [List.cons_prefix_cons] using
            List.reverse_prefix.mpr (trimBackwards_suffix true rest.reverse)
  · have hway := sameWay_trimBackwards false path.toList.reverse
    rw [List.reverse_reverse] at hway
    rw [Disk.pathPieces, Disk.pathPieces, trimmed, takeApart_unrooted hhead, String.toList_ofList]
    refine ⟨by simpa using hway, ?_⟩
    simpa using List.reverse_prefix.mpr (trimBackwards_suffix false path.toList.reverse)

end HostPath

end ArchiveOverlay
