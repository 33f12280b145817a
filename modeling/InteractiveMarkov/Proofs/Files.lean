import InteractiveMarkov.Execution
import InteractiveMarkov.Proofs.Lines

/-!
# Writing and removing files

Where a path leads depends on the directories alone. Steps that only put or remove files where no
directory stands keep all directories, so paths lead after them where they led before, and all
that the steps change is told by the paths of their files.
-/

set_option autoImplicit false

namespace InteractiveMarkov

namespace FileSystem

variable {fs after last : FileSystem} {path other : String} {paths : List String}
  {location place : Location} {contents : ByteArray} {entry : Entry}

def entryAt (fs : FileSystem) (path : String) : Option Entry := (fs.find path).toOption

theorem find_of_locate (h : fs.locate path = .ok location) : fs.find path =
    if fs.isDirectory location then .ok .directory
    else match fs[location]? with
      | none => .error .notFound
      | some entry => if Path.endsInSlash path then .error .notDirectory else .ok entry := by
  rw [find, h]
  rfl

theorem entryAt_of_locate (h : fs.locate path = .ok location) : fs.entryAt path =
    if fs.isDirectory location then some .directory
    else if Path.endsInSlash path then none else fs[location]? := by
  rw [entryAt, find_of_locate h]
  split
  · rfl
  · cases fs[location]? <;> cases Path.endsInSlash path <;> rfl

theorem entryAt_of_unlocated (h : ∀ location, fs.locate path ≠ .ok location) :
    fs.entryAt path = none := by
  rw [entryAt, find]
  cases hlocate : fs.locate path with
  | error fault => rfl
  | ok location => exact absurd hlocate (h location)

theorem entryAt_eq_some : fs.entryAt path = some entry ↔ fs.find path = .ok entry := by
  rw [entryAt]
  cases fs.find path <;> simp [Except.toOption]

theorem pathExists_eq (fs : FileSystem) (path : String) :
    fs.pathExists path = (fs.entryAt path).isSome := by
  rw [pathExists, entryAt]
  cases fs.find path <;> rfl

theorem read_eq_ok : fs.read path = .ok contents ↔ fs.entryAt path = some (.file contents) := by
  rw [entryAt_eq_some, read]
  split <;> simp_all

theorem located_of_file (h : fs.entryAt path = some (.file contents)) : ∃ location,
    fs.locate path = .ok location ∧ fs.isDirectory location = false := by
  cases hlocate : fs.locate path with
  | error fault =>
    rw [entryAt_of_unlocated (by simp [hlocate])] at h
    cases h
  | ok location =>
    rw [entryAt_of_locate hlocate] at h
    split at h
    · cases h
    · rename_i hdirectory
      exact ⟨location, rfl, by simpa using hdirectory⟩

theorem isDirectory_of_change (h : fs.isDirectory location = false)
    (hhere : ∀ entry, after[location]? = some entry → entry ≠ .directory)
    (hthere : ∀ place, place ≠ location → after[place]? = fs[place]?) (place : Location) :
    after.isDirectory place = fs.isDirectory place := by
  by_cases heq : place = location
  · subst heq
    rw [h]
    unfold isDirectory at h ⊢
    rw [(Bool.or_eq_false_iff.1 h).1, Bool.false_or]
    split
    · rename_i hentry
      exact absurd rfl (hhere _ hentry)
    · rfl
  · unfold isDirectory
    rw [hthere place heq]

theorem follow_ok_congr (h : ∀ place, after.isDirectory place = fs.isDirectory place)
    (start : Location) (names : List String) :
    after.follow start names = .ok location ↔ fs.follow start names = .ok location := by
  induction names generalizing start with
  | nil => rfl
  | cons name rest ih =>
    rw [follow, follow, h]
    split
    · exact ih _
    · simp

/-- Between two file systems only files changed, and only where one of the paths leads. -/
structure Touches (paths : List String) (fs after : FileSystem) : Prop where
  directories : ∀ location, after.isDirectory location = fs.isDirectory location
  elsewhere : ∀ location, (∀ path ∈ paths, fs.locate path ≠ .ok location) →
    after[location]? = fs[location]?

namespace Touches

theorem refl (paths : List String) (fs : FileSystem) : Touches paths fs fs :=
  ⟨fun _ => rfl, fun _ _ => rfl⟩

theorem locate_iff (h : Touches paths fs after) (path : String) (location : Location) :
    after.locate path = .ok location ↔ fs.locate path = .ok location := by
  unfold locate
  split
  · rfl
  · exact follow_ok_congr h.directories _ _

theorem trans (h : Touches paths fs after) (hlast : Touches paths after last) :
    Touches paths fs last where
  directories location := (hlast.directories location).trans (h.directories location)
  elsewhere location hpaths := by
    rw [hlast.elsewhere location fun path hpath =>
      mt (h.locate_iff path location).1 (hpaths path hpath)]
    exact h.elsewhere location hpaths

theorem mono (h : Touches [path] fs after) (hpath : path ∈ paths) : Touches paths fs after where
  directories := h.directories
  elsewhere location hpaths := h.elsewhere location fun other hother => by
    rw [List.mem_singleton.1 hother]
    exact hpaths path hpath

theorem entryAt_eq (h : Touches paths fs after)
    (hpath : ∀ location, fs.locate path = .ok location → after[location]? = fs[location]?) :
    after.entryAt path = fs.entryAt path := by
  cases hlocate : fs.locate path with
  | error fault =>
    have hnone : ∀ location, fs.locate path ≠ .ok location := by simp [hlocate]
    rw [entryAt_of_unlocated hnone, entryAt_of_unlocated fun location =>
      mt (h.locate_iff path location).1 (hnone location)]
  | ok location =>
    rw [entryAt_of_locate hlocate, entryAt_of_locate ((h.locate_iff path location).2 hlocate),
      h.directories, hpath location hlocate]

theorem entryAt_other (h : Touches [path] fs after) (hother : ∀ location,
    fs.locate path = .ok location → fs.locate other ≠ .ok location) :
    after.entryAt other = fs.entryAt other := by
  refine h.entryAt_eq fun location hlocate => h.elsewhere location fun found hfound hsame => ?_
  rw [List.mem_singleton.1 hfound] at hsame
  exact hother location hsame hlocate

theorem of_change (hlocate : fs.locate path = .ok location)
    (hdirectory : fs.isDirectory location = false)
    (hhere : ∀ entry, after[location]? = some entry → entry ≠ .directory)
    (hthere : ∀ place, place ≠ location → after[place]? = fs[place]?) :
    Touches [path] fs after where
  directories := isDirectory_of_change hdirectory hhere hthere
  elsewhere place hpaths := hthere place fun heq =>
    hpaths path List.mem_cons_self (heq ▸ hlocate)

theorem insert (hlocate : fs.locate path = .ok location)
    (hdirectory : fs.isDirectory location = false) (contents : ByteArray) :
    Touches [path] fs (fs.insert location (.file contents)) := by
  refine of_change hlocate hdirectory (fun entry hentry => ?_) fun place hne => ?_
  · rw [Std.ExtTreeMap.getElem?_insert_self] at hentry
    cases hentry
    exact Entry.noConfusion
  · rw [Std.ExtTreeMap.getElem?_insert, if_neg]
    exact fun heq => hne (Std.LawfulEqCmp.compare_eq_iff_eq.1 heq).symm

theorem erase (hlocate : fs.locate path = .ok location)
    (hdirectory : fs.isDirectory location = false) : Touches [path] fs (fs.erase location) := by
  refine of_change hlocate hdirectory (fun entry hentry => ?_) fun place hne => ?_
  · rw [Std.ExtTreeMap.getElem?_erase_self] at hentry
    cases hentry
  · rw [Std.ExtTreeMap.getElem?_erase, if_neg]
    exact fun heq => hne (Std.LawfulEqCmp.compare_eq_iff_eq.1 heq).symm

end Touches

theorem writable_eq_ok : fs.writable path = .ok location ↔ fs.locate path = .ok location ∧
    fs.isDirectory location = false ∧ Path.endsInSlash path = false := by
  rw [writable]
  cases hlocate : fs.locate path with
  | error fault => simp [bind, Except.bind]
  | ok place =>
    simp only [bind, Except.bind, Except.ok.injEq]
    by_cases hcase : (fs.isDirectory place || Path.endsInSlash path) = true
    · rw [if_pos hcase]
      constructor
      · exact fun h => nomatch h
      · rintro ⟨rfl, hfree⟩
        simp [hfree] at hcase
    · rw [if_neg hcase]
      rw [Bool.not_eq_true, Bool.or_eq_false_iff] at hcase
      constructor
      · rintro ⟨rfl⟩
        exact ⟨rfl, hcase⟩
      · exact fun h => congrArg Except.ok h.1

theorem Touches.writable_iff (h : Touches paths fs after) :
    after.writable path = .ok location ↔ fs.writable path = .ok location := by
  rw [writable_eq_ok, writable_eq_ok, h.locate_iff, h.directories]

theorem create_of_writable (h : fs.writable path = .ok location) :
    fs.create path = .ok (fs.insert location (.file ByteArray.empty), location) := by
  rw [create, h]
  rfl

theorem writable_of_create (h : fs.create path = .ok (after, location)) :
    fs.writable path = .ok location ∧ after = fs.insert location (.file ByteArray.empty) := by
  cases hwritable : fs.writable path with
  | error fault =>
    rw [create, hwritable] at h
    cases h
  | ok place =>
    rw [create_of_writable hwritable] at h
    cases h
    exact ⟨rfl, rfl⟩

theorem touches_insert (h : fs.writable path = .ok location) (contents : ByteArray) :
    Touches [path] fs (fs.insert location (.file contents)) ∧
      entryAt (fs.insert location (.file contents)) path = some (.file contents) := by
  obtain ⟨hlocate, hdirectory, hslash⟩ := writable_eq_ok.1 h
  have htouches := Touches.insert hlocate hdirectory contents
  refine ⟨htouches, ?_⟩
  rw [entryAt_of_locate ((htouches.locate_iff path location).2 hlocate), htouches.directories,
    hdirectory, hslash]
  simp

theorem remove_file (h : fs.entryAt path = some (.file contents)) : ∃ after,
    fs.remove path = .ok after ∧ Touches [path] fs after ∧ after.entryAt path = none := by
  obtain ⟨location, hlocate, hdirectory⟩ := located_of_file h
  have htouches := Touches.erase hlocate hdirectory
  refine ⟨fs.erase location, ?_, htouches, ?_⟩
  · rw [remove, entryAt_eq_some.1 h, hlocate]
    rfl
  · rw [entryAt_of_locate ((htouches.locate_iff path location).2 hlocate), htouches.directories,
      hdirectory]
    simp

theorem remove_directory (h : fs.entryAt path = some .directory) :
    fs.remove path = .error .isDirectory := by
  rw [remove, entryAt_eq_some.1 h]
  rfl

theorem remove_nothing (h : fs.entryAt path = none) : fs.remove path ≠ .ok after := by
  intro hremove
  cases hfind : fs.find path with
  | error fault =>
    rw [remove, hfind] at hremove
    cases hremove
  | ok entry =>
    rw [entryAt_eq_some.2 hfind] at h
    cases h

theorem remove_ok (h : fs.remove path = .ok after) :
    Touches [path] fs after ∧ after.entryAt path = none := by
  cases hentry : fs.entryAt path with
  | none => exact absurd h (remove_nothing hentry)
  | some entry =>
    cases entry with
    | directory =>
      rw [remove_directory hentry] at h
      cases h
    | file contents =>
      obtain ⟨found, hremove, hfound⟩ := remove_file hentry
      rw [h] at hremove
      cases hremove
      exact hfound

end FileSystem

theorem Text.splitAtMark_append_last {α : Type} [DecidableEq α] (mark : α) (xs : List α) :
    ∃ pieces piece, ∀ ys, mark ∉ ys →
      splitAtMark mark (xs ++ ys) = pieces ++ [piece ++ ys] := by
  induction xs with
  | nil =>
    refine ⟨[], [], fun ys hys => ?_⟩
    induction ys with
    | nil => rfl
    | cons y ys ih =>
      obtain ⟨hy, hrest⟩ := not_or.1 (List.mem_cons.not.1 hys)
      rw [List.nil_append] at ih ⊢
      rw [splitAtMark_cons, ih hrest, List.nil_append, splitStep, if_neg (Ne.symm hy)]
      rfl
  | cons x xs ih =>
    obtain ⟨pieces, piece, hsplit⟩ := ih
    by_cases hx : x = mark
    · refine ⟨[] :: pieces, piece, fun ys hys => ?_⟩
      rw [List.cons_append, splitAtMark_cons, hsplit ys hys]
      cases pieces <;> simp [splitStep, hx]
    · cases pieces with
      | nil =>
        refine ⟨[], x :: piece, fun ys hys => ?_⟩
        rw [List.cons_append, splitAtMark_cons, hsplit ys hys]
        simp [splitStep, hx]
      | cons first rest =>
        refine ⟨(x :: first) :: rest, piece, fun ys hys => ?_⟩
        rw [List.cons_append, splitAtMark_cons, hsplit ys hys]
        simp [splitStep, hx]

theorem Path.names_withSuffix (output : String) : ∃ above name, ∀ extension : String,
    '/' ∉ extension.toList →
      names (withSuffix output extension) = above ++ [name ++ "." ++ extension] := by
  obtain ⟨pieces, piece, hsplit⟩ := Text.splitAtMark_append_last '/' output.toList
  refine ⟨(if output.toList.head? = some '/' then [root] else []) ++
    (pieces.filter (! ·.isEmpty)).map String.ofList, String.ofList piece, fun extension h => ?_⟩
  have htext : (withSuffix output extension).toList = output.toList ++ '.' :: extension.toList := by
    simp [withSuffix]
  have hhead : (withSuffix output extension).toList.head? = some '/' ↔
      output.toList.head? = some '/' := by
    rw [htext]
    cases output.toList <;> simp
  have hlast : String.ofList (piece ++ '.' :: extension.toList) =
      String.ofList piece ++ "." ++ extension := by
    rw [← String.toList_inj]
    simp
  rw [names, htext, hsplit _ (by simpa using h), ← htext, List.filter_append, List.map_append,
    ← List.append_assoc]
  simp only [hhead, ← hlast]
  simp

namespace FileSystem

variable {fs : FileSystem} {location : Location} {output : String}

theorem follow_append (fs : FileSystem) (start : Location) (xs ys : List String) :
    fs.follow start (xs ++ ys) = fs.follow start xs >>= fun middle => fs.follow middle ys := by
  induction xs generalizing start with
  | nil => rfl
  | cons x xs ih =>
    rw [List.cons_append, follow, follow]
    split
    · exact ih _
    · rfl

theorem follow_name {start : Location} {name : String} (hname : 2 < name.length)
    (h : fs.follow start [name] = .ok location) : location = start ++ [name] := by
  have hdot : name ≠ "." := by
    rintro rfl
    exact absurd hname (by decide)
  have hdots : name ≠ ".." := by
    rintro rfl
    exact absurd hname (by decide)
  rw [follow] at h
  split at h
  · cases h
    rw [Path.step, if_neg hdot, if_neg fun hup => hdots hup.1]
  · cases h

/-- Paths with different extensions of two or more characters lead to different places. -/
theorem withSuffix_inj {first second : String} (hfirst : '/' ∉ first.toList)
    (hsecond : '/' ∉ second.toList) (hlong : 1 < first.length) (hlong' : 1 < second.length)
    (h : fs.locate (Path.withSuffix output first) = .ok location)
    (h' : fs.locate (Path.withSuffix output second) = .ok location) : first = second := by
  obtain ⟨above, name, hnames⟩ := Path.names_withSuffix output
  have hplace : ∀ extension : String, '/' ∉ extension.toList → 1 < extension.length →
      fs.locate (Path.withSuffix output extension) = .ok location →
      ∃ directory, fs.follow [] above = .ok directory ∧
        location = directory ++ [name ++ "." ++ extension] := by
    intro extension hslash hlong hlocate
    rw [locate] at hlocate
    split at hlocate
    · cases hlocate
    · rw [hnames extension hslash, follow_append] at hlocate
      cases habove : fs.follow [] above with
      | error fault =>
        rw [habove] at hlocate
        cases hlocate
      | ok directory =>
        rw [habove] at hlocate
        refine ⟨directory, rfl, follow_name ?_ hlocate⟩
        rw [String.length_append, String.length_append]
        have hdot : ".".length = 1 := rfl
        omega
  obtain ⟨directory, habove, hlocation⟩ := hplace first hfirst hlong h
  obtain ⟨same, habove', hlocation'⟩ := hplace second hsecond hlong' h'
  rw [habove] at habove'
  cases habove'
  rw [hlocation, List.append_cancel_left_eq, List.singleton_inj] at hlocation'
  exact (String.append_right_inj _).1 hlocation'

theorem head?_step {name : String} (hname : name ≠ Path.root) (place : Location) :
    (Path.step place name).head? = some Path.root ↔ place.head? = some Path.root := by
  unfold Path.step
  split
  · rfl
  · split
    · split
      · rfl
      · rename_i hup hroot
        rcases place with _ | ⟨first, _ | ⟨second, rest⟩⟩
        · rfl
        · simpa using hroot
        · rfl
    · rcases place with _ | ⟨first, rest⟩
      · simpa using hname
      · rfl

theorem head?_follow {names : List String} {start : Location} (hnames : Path.root ∉ names)
    (h : fs.follow start names = .ok location) :
    location.head? = some Path.root ↔ start.head? = some Path.root := by
  induction names generalizing start with
  | nil =>
    cases h
    rfl
  | cons name rest ih =>
    obtain ⟨hname, hrest⟩ := not_or.1 (List.mem_cons.not.1 hnames)
    rw [follow] at h
    split at h
    · exact (ih hrest h).trans (head?_step (Ne.symm hname) start)
    · cases h

theorem head?_locate {path : String} (h : fs.locate path = .ok location) :
    location.head? = some Path.root ↔ path.toList.head? = some '/' := by
  have hnames : Path.root ∉ ((Text.splitAtMark '/' path.toList).filter (! ·.isEmpty)).map
      String.ofList := by
    intro hmem
    obtain ⟨piece, hpiece, hroot⟩ := List.mem_map.1 hmem
    have hslash : '/' ∈ piece := by
      rw [← String.toList_ofList (l := piece), hroot]
      decide
    exact Text.not_mem_of_mem_splitAtMark (List.mem_filter.1 hpiece).1 hslash
  rw [locate] at h
  split at h
  · cases h
  · unfold Path.names at h
    split at h
    · rename_i hrooted
      exact iff_of_true ((head?_follow hnames h).2 rfl) hrooted
    · rename_i hrooted
      refine iff_of_false (fun hroot => ?_) hrooted
      have hempty := (head?_follow hnames h).1 hroot
      cases hempty

/-- The files that have names from the root are others than those that have names from the working
    directory. -/
theorem rooted_apart {path other : String} (hpath : path.toList.head? = some '/')
    (hother : other.toList.head? ≠ some '/') (h : fs.locate path = .ok location) :
    fs.locate other ≠ .ok location :=
  fun hsame => hother ((head?_locate hsame).1 ((head?_locate h).2 hpath))

end FileSystem

end InteractiveMarkov
