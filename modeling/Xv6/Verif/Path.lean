import Mathlib.Data.List.TakeWhile
import Xv6.Fs.Path

/-!
# Path resolution follows the path's components

What a path names, stated without skipelem: its components are the non-empty pieces between
slashes of the C string, a directory entry matches a component when its name, up to its NUL, is
the component's first DIRSIZ bytes, and the path names the inode reached by following the first
live matching entry for each component in turn, from the root or the working directory. namex
computes that, and nameiparent the directory before the last component, on a file system as the
kernel keeps it (`Sound`): every directory is a whole number of entries, and every live entry,
the root and the working directory name allocated inodes. A directory cut short makes dirlookup
panic, and an entry for a free inode makes ilock panic.
-/

namespace Xv6.Fs

open Xv6.Bytes

/-! ## Components -/

/-- The bytes of a C string, up to its NUL. -/
def cstr (bytes : List UInt8) : List UInt8 := bytes.takeWhile (· != 0)

/-- The non-empty '/'-separated components of a path, in order. -/
def components (path : List UInt8) : List (List UInt8) :=
  ((cstr path).splitOn SLASH).filter fun piece => !piece.isEmpty

section Components

theorem dropWhile_dropWhile {α : Type} (p : α → Bool) :
    ∀ l : List α, (l.dropWhile p).dropWhile p = l.dropWhile p
  | [] => rfl
  | a :: l => by
    by_cases first : p a
    · rw [List.dropWhile_cons_of_pos first, dropWhile_dropWhile p l]
    · rw [List.dropWhile_cons_of_neg first, List.dropWhile_cons_of_neg first]

/-- The first byte left after `dropWhile` does not satisfy the test. -/
theorem headD_dropWhile {p : UInt8 → Bool} (l : List UInt8) (zero : p 0 = false) :
    p ((l.dropWhile p).headD 0) = false := by
  induction l with
  | nil => exact zero
  | cons a l ih =>
    by_cases first : p a
    · rw [List.dropWhile_cons_of_pos first]
      exact ih
    · rw [List.dropWhile_cons_of_neg first]
      simpa using first

/-- A leading slash makes an empty piece, which is not a component. -/
theorem components_slash (path : List UInt8) :
    components (SLASH :: path) = components path := by
  have nonzero : (SLASH != 0) = true := by decide
  simp only [components, cstr, List.takeWhile_cons_of_pos (p := fun x => x != 0) nonzero,
    List.splitOn, List.splitOnP_cons_eq_if_modifyHead, beq_self_eq_true, if_true,
    List.filter_cons, List.isEmpty_nil, Bool.not_true, Bool.false_eq_true, if_false]

/-- Runs of slashes in front of a path are ignored. -/
theorem components_dropSlashes : ∀ path : List UInt8,
    components (path.dropWhile (· == SLASH)) = components path
  | [] => rfl
  | a :: path => by
    by_cases slash : (a == SLASH) = true
    · rw [List.dropWhile_cons_of_pos (p := fun x => x == SLASH) slash,
        components_dropSlashes path, beq_iff_eq.mp slash, components_slash]
    · rw [List.dropWhile_cons_of_neg (p := fun x => x == SLASH) slash]

/-- A path that ends here has no components. -/
theorem components_of_end {path : List UInt8} (atEnd : path.headD 0 = 0) :
    components path = [] := by
  have empty : cstr path = [] := by
    cases path with
    | nil => rfl
    | cons a path =>
      simp only [List.headD_cons] at atEnd
      simp [cstr, atEnd]
  simp [components, empty]

/-- An element followed by the end, a NUL or a slash is the first component. -/
theorem components_elem {elem after : List UInt8} (nonempty : elem ≠ [])
    (inElem : ∀ x ∈ elem, elemByte x = true)
    (stop : after.headD 0 = 0 ∨ after.headD 0 = SLASH) :
    components (elem ++ after) = elem :: components after := by
  have nonzero : ∀ x ∈ elem, (x != 0) = true := fun x mem => by
    have := inElem x mem
    simp only [elemByte, Bool.and_eq_true] at this
    exact this.2
  have notSlash : ∀ x ∈ elem, (x == SLASH) = false := fun x mem => by
    have := inElem x mem
    simp only [elemByte, Bool.and_eq_true, bne_iff_ne, ne_eq] at this
    simpa using this.1
  have kept : (!elem.isEmpty) = true := by simpa using nonempty
  rcases stop with atEnd | slash
  · have rest : cstr after = [] := by
      cases after with
      | nil => rfl
      | cons a after =>
        simp only [List.headD_cons] at atEnd
        simp [cstr, atEnd]
    rw [components_of_end atEnd, components, cstr, List.takeWhile_append_of_pos nonzero, ← cstr,
      rest, List.append_nil, List.splitOn, List.splitOnP_eq_singleton notSlash]
    simp [kept]
  · obtain ⟨a, after, rfl⟩ : ∃ a rest, after = a :: rest := by
      cases after with
      | nil => exact absurd slash (by decide)
      | cons a rest => exact ⟨a, rest, rfl⟩
    simp only [List.headD_cons] at slash
    subst slash
    have slashNonzero : (SLASH != 0) = true := by decide
    rw [components_slash, components, cstr, List.takeWhile_append_of_pos nonzero,
      List.takeWhile_cons_of_pos (p := fun x => x != 0) slashNonzero, List.splitOn,
      List.splitOnP_append_cons_of_forall_mem notSlash _ (beq_self_eq_true _),
      List.filter_cons, if_pos kept]
    rfl

/-- A path that starts with a byte of an element has that element as its first component, and
the components after it follow. -/
theorem components_of_head {path : List UInt8} (start : elemByte (path.headD 0) = true) :
    path.takeWhile elemByte ≠ [] ∧
      components path = path.takeWhile elemByte :: components (path.dropWhile elemByte) := by
  obtain ⟨a, rest, rfl⟩ : ∃ a rest, path = a :: rest := by
    cases path with
    | nil => exact absurd start (by decide)
    | cons a rest => exact ⟨a, rest, rfl⟩
  simp only [List.headD_cons] at start
  have nonempty : (a :: rest).takeWhile elemByte ≠ [] := by
    rw [List.takeWhile_cons_of_pos start]
    exact List.cons_ne_nil _ _
  have stop := headD_dropWhile (p := elemByte) (a :: rest) (by decide)
  simp only [elemByte, Bool.and_eq_false_iff, bne_eq_false_iff_eq] at stop
  refine ⟨nonempty, ?_⟩
  conv_lhs => rw [← List.takeWhile_append_dropWhile (p := elemByte) (l := a :: rest)]
  exact components_elem nonempty (fun _ mem => List.mem_takeWhile_imp mem) stop.symm

/-- After the slashes in front, the next byte is an element's unless the path ends there. -/
theorem elemByte_after_slashes (path : List UInt8)
    (started : (path.dropWhile (· == SLASH)).headD 0 ≠ 0) :
    elemByte ((path.dropWhile (· == SLASH)).headD 0) = true := by
  have notSlash := headD_dropWhile (p := (· == SLASH)) path (by decide)
  simp only [beq_eq_false_iff_ne] at notSlash
  simp only [elemByte, Bool.and_eq_true, bne_iff_ne]
  exact ⟨notSlash, started⟩

theorem components_eq_nil_iff (path : List UInt8) :
    components path = [] ↔ (path.dropWhile (· == SLASH)).headD 0 = 0 := by
  rw [← components_dropSlashes]
  constructor
  · intro none
    by_contra started
    obtain ⟨nonempty, first⟩ := components_of_head (elemByte_after_slashes path started)
    rw [first] at none
    exact List.cons_ne_nil _ _ none
  · exact components_of_end

end Components

/-! ## skipelem -/

section Skipelem

variable {path rest : List UInt8} {name name' : Block DIRSIZ}

theorem skipelem_eq_none_iff :
    skipelem path name = none ↔ (path.dropWhile (· == SLASH)).headD 0 = 0 := by
  dsimp only [skipelem]
  split_ifs with atEnd
  · exact iff_of_true rfl atEnd
  · exact iff_of_false (by simp) atEnd

/-- skipelem finds nothing exactly when the path has no components. -/
theorem skipelem_eq_none_iff_components : skipelem path name = none ↔ components path = [] := by
  rw [skipelem_eq_none_iff, components_eq_nil_iff]

/-- What skipelem returns: the first component copied into the name buffer, and a shorter path
with no slashes in front whose components are the others. -/
theorem skipelem_some (skipped : skipelem path name = some (rest, name')) :
    ∃ elem, components path = elem :: components rest ∧
      name' = name.writeBytes 0 (elemBytes elem) ∧ (∀ x ∈ elem, x ≠ 0) ∧
      rest.length < path.length ∧ rest.dropWhile (· == SLASH) = rest := by
  dsimp only [skipelem] at skipped
  split_ifs at skipped with atEnd
  obtain ⟨rfl, rfl⟩ := Prod.mk.inj (Option.some.inj skipped).symm
  have start := elemByte_after_slashes path atEnd
  obtain ⟨-, first⟩ := components_of_head start
  refine ⟨_, ?_, rfl, fun x mem => ?_, ?_, dropWhile_dropWhile _ _⟩
  · rw [← components_dropSlashes path, first, components_dropSlashes]
  · have := List.mem_takeWhile_imp mem
    simp only [elemByte, Bool.and_eq_true, bne_iff_ne] at this
    exact this.2
  · obtain ⟨a, after, split⟩ : ∃ a after, path.dropWhile (· == SLASH) = a :: after := by
      cases h : path.dropWhile (· == SLASH) with
      | nil => rw [h] at atEnd; exact absurd rfl atEnd
      | cons a after => exact ⟨a, after, rfl⟩
    rw [split] at start ⊢
    simp only [List.headD_cons] at start
    rw [List.dropWhile_cons_of_pos start]
    have dropped := ((List.dropWhile_suffix (· == SLASH)).trans
      (List.dropWhile_suffix (l := after) elemByte)).length_le
    have slashes := (List.dropWhile_suffix (l := path) (· == SLASH)).length_le
    rw [split] at slashes
    simp only [List.length_cons] at slashes
    omega

end Skipelem

/-! ## Names -/

section Names

@[simp] theorem cstr_nil : cstr [] = [] := rfl

theorem cstr_cons (a : UInt8) (l : List UInt8) :
    cstr (a :: l) = if a = 0 then [] else a :: cstr l := by
  by_cases zero : a = 0 <;> simp [cstr, zero]

/-- strncmp finds two byte strings equal exactly when they agree up to the first NUL within `n`
bytes. The comparison goes on past a byte that is not NUL and agrees, and stops at the first byte
where a string ends or the two differ. -/
theorem strncmp_eq_zero_iff : ∀ (p q : List UInt8) (n : Nat),
    strncmp p q n = 0 ↔ cstr (p.take n) = cstr (q.take n)
  | p, q, 0 => by simp [strncmp, cstr]
  | p, q, n + 1 => by
    rw [strncmp]
    split_ifs with same
    · obtain ⟨a, p, rfl⟩ : ∃ a rest, p = a :: rest := by
        cases p with
        | nil => exact absurd rfl same.1
        | cons a rest => exact ⟨a, rest, rfl⟩
      obtain ⟨b, q, rfl⟩ : ∃ b rest, q = b :: rest := by
        cases q with
        | nil => exact absurd same.2 same.1
        | cons b rest => exact ⟨b, rest, rfl⟩
      simp only [List.headD_cons] at same
      obtain ⟨nonzero, rfl⟩ := same
      rw [List.tail_cons, List.tail_cons, strncmp_eq_zero_iff p q n]
      simp [cstr, nonzero]
    · rw [sub_eq_zero, Int.natCast_inj, UInt8.toNat_inj]
      rcases p with _ | ⟨a, p⟩ <;> rcases q with _ | ⟨b, q⟩ <;>
        simp only [List.headD_nil, List.headD_cons, List.take_nil, List.take_succ_cons,
          cstr_nil, cstr_cons] at same ⊢
      · by_cases zero : b = 0
        · simp [zero]
        · simp [zero, Ne.symm zero]
      · by_cases zero : a = 0 <;> simp [zero]
      · by_cases zero : a = 0
        · by_cases other : b = 0
          · simp [zero, other]
          · simp [zero, other, Ne.symm other]
        · have differ : a ≠ b := fun same' => same ⟨zero, same'⟩
          by_cases other : b = 0 <;> simp [zero, other, differ]

/-- The name buffer after skipelem copied an element into it holds, as a string, the element's
first DIRSIZ bytes. -/
theorem cstr_elemBytes (name : Block DIRSIZ) {elem : List UInt8} (nonzero : ∀ x ∈ elem, x ≠ 0) :
    cstr ((name.writeBytes 0 (elemBytes elem)).bytes 0 DIRSIZ) = elem.take DIRSIZ := by
  have nonzero' : ∀ x ∈ elem, (x != 0) = true := fun x mem => by simpa using nonzero x mem
  unfold elemBytes
  split_ifs with long
  · rw [Block.bytes_writeBytes_zero _ (by simp), List.length_take, Nat.min_eq_left long,
      List.drop_of_length_le (by simp), List.append_nil, cstr,
      List.takeWhile_eq_self_iff.mpr fun x mem => nonzero' x (List.mem_of_mem_take mem)]
  · rw [Block.bytes_writeBytes_zero _ (by simp; omega), cstr, List.append_assoc,
      List.takeWhile_append_of_pos nonzero', List.singleton_append,
      List.takeWhile_cons_of_neg (by simp), List.append_nil, List.take_of_length_le (by omega)]

/-- The name of a whole entry read from a directory, as namecmp sees it. -/
theorem bytes_direntName {de : List UInt8} (whole : de.length = direntSize) :
    (direntName de).bytes 0 DIRSIZ = de.drop 2 := by
  apply List.ext_getElem (by simp [whole, direntSize])
  intro j inside _
  rw [Block.bytes_length] at inside
  simp only [Block.bytes, List.getElem_map, List.getElem_range, Nat.zero_add, Block.byte,
    dif_pos inside, direntName]
  rw [List.getD_eq_getElem?_getD, List.getElem?_eq_getElem (by simp [whole, direntSize]; omega),
    Option.getD_some]

/-- namecmp of an element skipelem copied and the name of a whole entry: equal exactly when
the entry's name, up to its NUL, is the element's first DIRSIZ bytes. -/
theorem namecmp_elemBytes (name : Block DIRSIZ) {elem de : List UInt8}
    (nonzero : ∀ x ∈ elem, x ≠ 0) (whole : de.length = direntSize) :
    namecmp (name.writeBytes 0 (elemBytes elem)) (direntName de) = 0 ↔
      cstr (de.drop 2) = elem.take DIRSIZ := by
  rw [namecmp, strncmp_eq_zero_iff, List.take_of_length_le (by simp),
    List.take_of_length_le (by simp), cstr_elemBytes name nonzero, bytes_direntName whole,
    eq_comm]

end Names

/-! ## Runs of slashes -/

section Slashes

/-- A C string that runs into more bytes ends in the first part if that holds a NUL. -/
theorem cstr_append (pre rest : List UInt8) :
    cstr (pre ++ rest) = if 0 ∈ pre then cstr pre else pre ++ cstr rest := by
  induction pre with
  | nil => simp
  | cons a pre ih =>
    rw [List.cons_append, cstr_cons, cstr_cons, ih]
    by_cases zero : a = 0
    · simp [zero]
    · by_cases inPre : 0 ∈ pre <;> simp [zero, inPre, Ne.symm zero]

/-- A slash next to a slash changes no component: a run of slashes counts as one. -/
theorem components_slash_slash (pre post : List UInt8) :
    components (pre ++ SLASH :: SLASH :: post) = components (pre ++ SLASH :: post) := by
  have slashNonzero : SLASH ≠ 0 := by decide
  unfold components
  rw [cstr_append, cstr_append]
  split_ifs with inPre
  · rfl
  · simp [cstr_cons, slashNonzero, List.splitOn_append_cons_self,
      List.splitOn_cons_eq_if_modifyHead]

end Slashes

/-! ## Directories -/

/-- The inode number of a directory entry. -/
def inum (de : List UInt8) : Nat := (readLe16 de).1.toNat

/-- Entry `i` of a directory's bytes. -/
def entry (data : List UInt8) (i : Nat) : List UInt8 :=
  (data.drop (i * direntSize)).take direntSize

/-- The entries of a directory, in order. -/
def dirents (data : List UInt8) : List (List UInt8) :=
  (List.range (data.length / direntSize)).map (entry data)

/-- An entry stands for a component when it is live and its name, up to its NUL, is the
component's first DIRSIZ bytes. -/
def names (comp de : List UInt8) : Bool :=
  inum de != 0 && cstr (de.drop 2) == comp.take DIRSIZ

/-- The inode the first entry of directory `dp` for a component names. -/
def lookup (tree : Tree) (dp : Nat) (comp : List UInt8) : Option Nat :=
  ((dirents (tree dp).data).find? (names comp)).map inum

/-- The file system as the kernel keeps it: every directory is a whole number of entries, and
every live entry and the root name allocated inodes. -/
structure Sound (tree : Tree) : Prop where
  whole : ∀ d, (tree d).type = T_DIR → (tree d).data.length % direntSize = 0
  linked : ∀ d, (tree d).type = T_DIR → ∀ de ∈ dirents (tree d).data, inum de ≠ 0 →
    (tree (inum de)).type ≠ 0
  root : (tree ROOTINO).type ≠ 0

section Dirlookup

variable {tree : Tree} {data : List UInt8} {name : Block DIRSIZ} {comp : List UInt8}

/-- readi of a whole entry inside the directory returns that entry. -/
theorem readi_entry {k : Nat} (inside : (k + 1) * direntSize ≤ data.length) :
    Data.readi data (k * direntSize) direntSize = some (entry data k) := by
  rw [Nat.succ_mul] at inside
  rw [Data.readi, if_neg (by omega), if_neg (by omega), entry]

theorem entry_length {k : Nat} (inside : (k + 1) * direntSize ≤ data.length) :
    (entry data k).length = direntSize := by
  rw [Nat.succ_mul] at inside
  simp only [entry, List.length_take, List.length_drop]
  omega

/-- dirlookup's loop over the entries from `k` on, with a turn for each: the first one for the
component, when namecmp with the name buffer matches the entries that stand for it. -/
theorem dirlookupLoop_eq (agree : ∀ de, de.length = direntSize →
      (namecmp name (direntName de) = 0 ↔ cstr (de.drop 2) = comp.take DIRSIZ))
    (whole : data.length % direntSize = 0) :
    ∀ (j k fuel : Nat), k + j = data.length / direntSize → j ≤ fuel →
      dirlookupLoop data name fuel (k * direntSize) =
        .ok ((((List.range' k j).map (entry data)).find? (names comp)).map inum) := by
  intro j
  induction j with
  | zero =>
    intro k fuel last _
    have atEnd : k * direntSize = data.length := by
      have split := Nat.div_add_mod data.length direntSize
      rw [whole, Nat.add_zero, ← last, Nat.add_zero, Nat.mul_comm] at split
      exact split
    cases fuel with
    | zero => rfl
    | succ fuel => rw [dirlookupLoop, if_neg (by omega)]; rfl
  | succ j ih =>
    intro k fuel last enough
    obtain ⟨fuel, rfl⟩ : ∃ f, fuel = f + 1 := ⟨fuel - 1, by omega⟩
    have inside : (k + 1) * direntSize ≤ data.length := by
      have : k + 1 ≤ data.length / direntSize := by omega
      calc (k + 1) * direntSize ≤ data.length / direntSize * direntSize :=
            Nat.mul_le_mul_right _ this
        _ ≤ data.length := Nat.div_mul_le_self _ _
    have next : k * direntSize + direntSize = (k + 1) * direntSize := (Nat.succ_mul k _).symm
    have before : k * direntSize < data.length := by
      have positive : 0 < direntSize := by decide
      omega
    have rest := ih (k + 1) fuel (by omega) (by omega)
    have whole' := entry_length inside
    rw [dirlookupLoop, if_pos before, readi_entry inside, Option.getD_some,
      if_neg (not_not_intro whole'), next, List.range'_succ, List.map_cons, List.find?_cons]
    by_cases dead : (readLe16 (entry data k)).1 = 0
    · have skipped : names comp (entry data k) = false := by simp [names, inum, dead]
      rw [if_pos dead, skipped, rest]
    · rw [if_neg dead]
      have live : inum (entry data k) ≠ 0 := fun zero => dead (UInt16.toNat_inj.mp zero)
      by_cases found : cstr ((entry data k).drop 2) = comp.take DIRSIZ
      · have taken : names comp (entry data k) = true := by simp [names, found, live]
        rw [if_pos ((agree _ whole').mpr found), taken]
        rfl
      · have skipped : names comp (entry data k) = false := by simp [names, found]
        rw [if_neg (fun same => found ((agree _ whole').mp same)), skipped, rest]

/-- dirlookup with a component skipelem copied: the first live entry for it. -/
theorem dirlookup_eq (sound : Sound tree) {dp : Nat} (dir : (tree dp).type = T_DIR)
    (nonzero : ∀ x ∈ comp, x ≠ 0) :
    dirlookup tree dp (name.writeBytes 0 (elemBytes comp)) = .ok (lookup tree dp comp) := by
  have all := dirlookupLoop_eq (fun de whole => namecmp_elemBytes name nonzero whole)
    (sound.whole dp dir) ((tree dp).data.length / direntSize) 0 (tree dp).data.length
    (Nat.zero_add _) (Nat.div_le_self _ _)
  rw [Nat.zero_mul] at all
  rw [dirlookup, if_neg (not_not_intro dir), all, lookup, dirents, List.range_eq_range']

/-- An entry lookup finds names an allocated inode. -/
theorem Sound.lookup_allocated (sound : Sound tree) {dp next : Nat}
    (dir : (tree dp).type = T_DIR) (found : lookup tree dp comp = some next) :
    (tree next).type ≠ 0 := by
  obtain ⟨de, first, rfl⟩ := Option.map_eq_some_iff.mp found
  have live := List.find?_some first
  simp only [names, Bool.and_eq_true, bne_iff_ne] at live
  exact sound.linked dp dir de (List.mem_of_find?_eq_some first) live.1

end Dirlookup

/-! ## Resolution -/

/-- The inode reached from `ip` by following each component in turn: none when an inode on the
way is not a directory or has no entry for the next component. -/
def resolve (tree : Tree) (ip : Nat) : List (List UInt8) → Option Nat
  | [] => some ip
  | comp :: comps =>
    if (tree ip).type ≠ T_DIR then none
    else (lookup tree ip comp).bind fun next => resolve tree next comps

/-- The directory named by all components but the last; none for no components. -/
def parentOf (tree : Tree) (ip : Nat) (comps : List (List UInt8)) : Option Nat :=
  if comps = [] then none
  else (resolve tree ip comps.dropLast).filter fun d => (tree d).type == T_DIR

/-- What namex is for: the inode the components lead to, or with nameiparent the directory
before the last one. -/
def target (tree : Tree) (nameiparent : Bool) (ip : Nat) (comps : List (List UInt8)) :
    Option Nat :=
  if nameiparent then parentOf tree ip comps else resolve tree ip comps

section Resolution

variable {tree : Tree} {nameiparent : Bool} {ip : Nat} {comp : List UInt8}
  {comps : List (List UInt8)}

theorem target_nil : target tree nameiparent ip [] = if nameiparent then none else some ip := by
  cases nameiparent <;> rfl

theorem target_of_not_dir (notDir : (tree ip).type ≠ T_DIR) :
    target tree nameiparent ip (comp :: comps) = none := by
  cases nameiparent with
  | false => simp [target, resolve, notDir]
  | true =>
    by_cases last : comps = []
    · simp [target, parentOf, last, resolve, notDir]
    · simp [target, parentOf, List.dropLast_cons_of_ne_nil last, resolve, notDir]

theorem target_last (dir : (tree ip).type = T_DIR) : target tree true ip [comp] = some ip := by
  simp [target, parentOf, resolve, dir]

/-- Past a directory with an entry for the component, what is left is found from its inode,
unless nameiparent stops at this component. -/
theorem target_cons (dir : (tree ip).type = T_DIR) {found : Option Nat}
    (entry : lookup tree ip comp = found) (more : nameiparent = true → comps ≠ []) :
    target tree nameiparent ip (comp :: comps) =
      found.bind fun next => target tree nameiparent next comps := by
  cases nameiparent with
  | false => simp [target, resolve, dir, entry]
  | true =>
    have more := more rfl
    cases found <;>
      simp [target, parentOf, List.dropLast_cons_of_ne_nil more, resolve, dir, more, entry]

/-- A path resolves to nothing exactly when, some components in, it meets an inode that is not a
directory or has no entry for the next component. -/
theorem resolve_eq_none_iff : ∀ (ip : Nat) (comps : List (List UInt8)),
    resolve tree ip comps = none ↔ ∃ pre comp post d, comps = pre ++ comp :: post ∧
      resolve tree ip pre = some d ∧ ((tree d).type ≠ T_DIR ∨ lookup tree d comp = none)
  | ip, [] => by simp [resolve]
  | ip, c :: cs => by
    constructor
    · intro none
      by_cases dir : (tree ip).type = T_DIR
      · cases found : lookup tree ip c with
        | none => exact ⟨[], c, cs, ip, rfl, rfl, .inr found⟩
        | some next =>
          rw [resolve, if_neg (not_not_intro dir), found, Option.bind_some] at none
          obtain ⟨pre, comp, post, d, rfl, reached, stuck⟩ :=
            (resolve_eq_none_iff next cs).mp none
          refine ⟨c :: pre, comp, post, d, rfl, ?_, stuck⟩
          rw [resolve, if_neg (not_not_intro dir), found, Option.bind_some, reached]
      · exact ⟨[], c, cs, ip, rfl, rfl, .inl dir⟩
    · rintro ⟨pre, comp, post, d, split, reached, stuck⟩
      cases pre with
      | nil =>
        obtain ⟨rfl, rfl⟩ := List.cons.inj split
        cases reached
        rcases stuck with notDir | missing
        · simp [resolve, notDir]
        · simp [resolve, missing]
      | cons p pre =>
        obtain ⟨rfl, rfl⟩ := List.cons.inj split
        by_cases dir : (tree ip).type = T_DIR
        · rw [resolve, if_neg (not_not_intro dir)] at reached ⊢
          obtain ⟨next, found, reached⟩ := Option.bind_eq_some_iff.mp reached
          rw [found, Option.bind_some]
          exact (resolve_eq_none_iff next _).mpr ⟨pre, comp, post, d, rfl, reached, stuck⟩
        · simp [resolve, dir]

end Resolution

/-! ## namex -/

section Namex

variable {tree : Tree}

/-- namex's loop, with a turn for every byte of the path and more, from an allocated inode: it
answers what the path's components lead to, and when it finds something the name buffer holds the
last component; a path with no components leaves the buffer alone. When only slashes are left the
loop ends at this inode, and `nameiparent` stops at the last component, in its directory. -/
theorem namexLoop_spec (sound : Sound tree) (nameiparent : Bool) :
    ∀ {fuel ip : Nat} {path : List UInt8} (name : Block DIRSIZ), path.length < fuel →
      (tree ip).type ≠ 0 →
      ∃ name', namexLoop tree nameiparent fuel ip path name =
          .ok (target tree nameiparent ip (components path), name') ∧
        (components path = [] → name' = name) ∧
        (target tree nameiparent ip (components path) ≠ none → ∀ last,
          (components path).getLast? = some last → cstr (name'.bytes 0 DIRSIZ) = last.take DIRSIZ)
  | 0, _, _, _, enough, _ => absurd enough (Nat.not_lt_zero _)
  | fuel + 1, ip, path, name, enough, allocated => by
    rw [namexLoop]
    cases skipped : skipelem path name with
    | none =>
      have none := skipelem_eq_none_iff_components.mp skipped
      refine ⟨name, ?_, fun _ => rfl, fun _ last atLast => ?_⟩
      · rw [none, target_nil]
      · rw [none] at atLast
        cases atLast
    | some step =>
      obtain ⟨rest, name'⟩ := step
      obtain ⟨elem, first, rfl, nonzero, shorter, noSlashes⟩ := skipelem_some skipped
      have written := cstr_elemBytes name nonzero
      dsimp only
      rw [first, if_neg allocated]
      by_cases dir : (tree ip).type = T_DIR
      · rw [if_neg (not_not_intro dir)]
        by_cases stop : nameiparent = true ∧ rest.headD 0 = 0
        · have none : components rest = [] :=
            (components_eq_nil_iff rest).mpr (noSlashes.symm ▸ stop.2)
          rw [if_pos stop, stop.1, none, target_last dir]
          refine ⟨_, rfl, fun more => absurd more (List.cons_ne_nil _ _), fun _ last atLast => ?_⟩
          cases atLast
          exact written
        · have more : nameiparent = true → components rest ≠ [] := fun np none =>
            stop ⟨np, noSlashes ▸ (components_eq_nil_iff rest).mp none⟩
          rw [if_neg stop, dirlookup_eq sound dir nonzero]
          cases found : lookup tree ip elem with
          | none =>
            rw [target_cons dir found more]
            exact ⟨_, rfl, fun more => absurd more (List.cons_ne_nil _ _), fun none => absurd rfl none⟩
          | some next =>
            obtain ⟨name'', loop, unchanged, holds⟩ := namexLoop_spec sound nameiparent
              (name.writeBytes 0 (elemBytes elem)) (show rest.length < fuel by omega)
              (sound.lookup_allocated dir found)
            rw [target_cons dir found more, Option.bind_some]
            dsimp only
            refine ⟨name'', loop, fun more => absurd more (List.cons_ne_nil _ _),
              fun some last atLast => ?_⟩
            by_cases none : components rest = []
            · rw [none] at atLast
              cases atLast
              rw [unchanged none]
              exact written
            · rw [List.getLast?_cons, List.getLast?_eq_some_getLast none, Option.getD_some] at atLast
              exact holds some last (by rw [List.getLast?_eq_some_getLast none]; exact atLast)
      · rw [if_pos dir, target_of_not_dir dir]
        exact ⟨_, rfl, fun more => absurd more (List.cons_ne_nil _ _), fun none => absurd rfl none⟩

/-- Path resolution follows the path's components: namex answers `resolve` from the root or the
working directory, which fails exactly at an inode that is not a directory or lacks the entry;
nameiparent answers the directory before the last component, none for no components, and then
holds the last component in the name buffer; a run of slashes counts as one slash; and
skipelem always leaves a shorter path. -/
theorem namex_follows_components {cwd : Nat} (sound : Sound tree)
    (cwdAllocated : (tree cwd).type ≠ 0) (path : List UInt8) (name : Block DIRSIZ) :
    (∃ name', namex tree cwd path false name =
        .ok (resolve tree (startOf path cwd) (components path), name')) ∧
    (resolve tree (startOf path cwd) (components path) = none ↔
      ∃ pre comp post d, components path = pre ++ comp :: post ∧
        resolve tree (startOf path cwd) pre = some d ∧
        ((tree d).type ≠ T_DIR ∨ lookup tree d comp = none)) ∧
    (∃ name', nameiparent tree cwd path name =
        .ok (parentOf tree (startOf path cwd) (components path), name') ∧
      ∀ dp last, parentOf tree (startOf path cwd) (components path) = some dp →
        (components path).getLast? = some last →
        cstr (name'.bytes 0 DIRSIZ) = last.take DIRSIZ) ∧
    (components path = [] → (nameiparent tree cwd path name).map Prod.fst = .ok none) ∧
    (∀ pre post : List UInt8,
      components (pre ++ SLASH :: SLASH :: post) = components (pre ++ SLASH :: post)) ∧
    (∀ rest name', skipelem path name = some (rest, name') → rest.length < path.length) := by
  have start : (tree (startOf path cwd)).type ≠ 0 := by
    unfold startOf
    split_ifs
    · exact sound.root
    · exact cwdAllocated
  obtain ⟨found, lookedUp, -, -⟩ := namexLoop_spec sound false name (Nat.lt_succ_self _) start
  obtain ⟨parent, walked, -, holds⟩ := namexLoop_spec sound true name (Nat.lt_succ_self _) start
  refine ⟨⟨found, lookedUp⟩, resolve_eq_none_iff _ _, ⟨parent, walked, ?_⟩, fun none => ?_,
    components_slash_slash, fun rest name' skipped => ?_⟩
  · intro dp last reached
    exact holds (by rw [target, if_pos rfl, reached]; exact Option.some_ne_none _) last
  · rw [nameiparent, namex, walked, none]
    rfl
  · obtain ⟨_, _, _, _, shorter, _⟩ := skipelem_some skipped
    exact shorter

/-- A root directory with one entry, `a` for inode 2, which is a plain file. -/
def oneFile : Tree := fun n =>
  if n = ROOTINO then ⟨T_DIR, [2, 0, 97] ++ List.replicate 13 0, by decide⟩
  else if n = 2 then ⟨T_FILE, [], by decide⟩
  else ⟨0, [], by decide⟩

theorem oneFile_of_dir {d : Nat} (dir : (oneFile d).type = T_DIR) : d = ROOTINO := by
  unfold oneFile at dir
  split_ifs at dir with root
  · exact root
  · exact absurd dir (by decide)
  · exact absurd dir (by decide)

theorem oneFile_sound : Sound oneFile where
  whole d dir := by
    obtain rfl := oneFile_of_dir dir
    decide
  linked d dir := by
    obtain rfl := oneFile_of_dir dir
    decide
  root := by decide

theorem namex_follows_components_oneFile :
    Sound oneFile ∧ (oneFile ROOTINO).type ≠ 0 ∧
      ∃ name', namex oneFile ROOTINO [SLASH, 97] false (fun _ => 0) = .ok (some 2, name') := by
  obtain ⟨⟨name', found⟩, -⟩ :=
    namex_follows_components oneFile_sound (show (oneFile ROOTINO).type ≠ 0 by decide) [SLASH, 97]
      (fun _ => 0)
  have reached :
      resolve oneFile (startOf [SLASH, 97] ROOTINO) (components [SLASH, 97]) = some 2 := by
    decide
  exact ⟨oneFile_sound, by decide, name', reached ▸ found⟩

end Namex

end Xv6.Fs
