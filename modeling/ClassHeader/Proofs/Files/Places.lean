import ClassHeader.Proofs.Files.Tree
import ClassHeader.Proofs.Text.Basic

/-!
# Places that change

Writing a file changes what stands at one place, and making directories changes nothing but
places where nothing was. A cleaned path leads to the place that it spells, so the place of a
file that is written at such a path can be told without looking at the tree.
-/

namespace ClassHeader

-- ---------------------------------------------------------------------------
-- Cleaned paths
-- ---------------------------------------------------------------------------

namespace Path

structure IsName (part : Bytes) : Prop where
  ne_nil : part ≠ []
  ne_here : part ≠ here
  ne_parent : part ≠ parent
  noSlash : Ascii.slash ∉ part

/-- Cleaned parts, the last one first: names, and behind them steps up from the working
directory. -/
inductive Stacked (absolute : Bool) : List Bytes → Prop
  | up (n : Nat) (h : absolute = true → n = 0) : Stacked absolute (List.replicate n parent)
  | name {part : Bytes} {below : List Bytes} (hpart : IsName part)
      (hbelow : Stacked absolute below) : Stacked absolute (part :: below)

theorem stacked_cleanPart {absolute : Bool} {done : List Bytes} {part : Bytes}
    (h : Stacked absolute done) (hpart : Ascii.slash ∉ part) :
    Stacked absolute (cleanPart absolute done part) := by
  unfold cleanPart
  by_cases hstay : part = [] ∨ part = here
  · rwa [if_pos hstay]
  rw [if_neg hstay]
  by_cases hup : part = parent
  · -- A step up takes a name back, or else is kept unless the path starts at the root.
    rw [if_pos hup]
    cases h with
    | @name last below hlast hbelow => simpa [hlast.ne_parent] using hbelow
    | up n hn =>
      cases n with
      | zero =>
        cases absolute with
        | true => exact .up 0 fun _ => rfl
        | false => exact .up 1 nofun
      | succ n =>
        cases absolute with
        | true => cases hn rfl
        | false => exact .up (n + 2) nofun
  · rw [if_neg hup]
    obtain ⟨hnil, hhere⟩ := not_or.mp hstay
    exact .name ⟨hnil, hhere, hup, hpart⟩ h

theorem stacked_foldl_cleanPart {absolute : Bool} {parts done : List Bytes}
    (h : Stacked absolute done) (hparts : ∀ part ∈ parts, Ascii.slash ∉ part) :
    Stacked absolute (parts.foldl (cleanPart absolute) done) := by
  induction parts generalizing done with
  | nil => exact h
  | cons part parts ih =>
    obtain ⟨hpart, hrest⟩ := List.forall_mem_cons.mp hparts
    exact ih (stacked_cleanPart h hpart) hrest

theorem Stacked.noSlash {absolute : Bool} {done : List Bytes} (h : Stacked absolute done) :
    ∀ part ∈ done, Ascii.slash ∉ part := by
  induction h with
  | up n _ =>
    intro part hpart
    obtain rfl := List.eq_of_mem_replicate hpart
    decide
  | name hpart _ ih => exact List.forall_mem_cons.mpr ⟨hpart.noSlash, ih⟩

theorem parts_ofParts {kept : List Bytes} (hne : kept ≠ [])
    (h : ∀ part ∈ kept, Ascii.slash ∉ part) : parts (ofParts kept) = kept := by
  rw [parts, ofParts, Text.splitOn_eq]
  exact List.splitOn_intercalate _ h hne

theorem Stacked.ne_nil {absolute : Bool} {done : List Bytes} (h : Stacked absolute done) :
    [] ∉ done := by
  induction h with
  | up n _ => exact fun hmem => nomatch List.eq_of_mem_replicate hmem
  | name hpart _ ih => exact List.not_mem_cons_of_ne_of_not_mem hpart.ne_nil.symm ih

theorem ofParts_eq_nil_iff {kept : List Bytes} (h : [] ∉ kept) : ofParts kept = [] ↔ kept = [] := by
  cases kept with
  | nil => simp [ofParts]
  | cons part kept =>
    have hpart : part ≠ [] := fun hnil => h (hnil ▸ List.mem_cons_self)
    cases kept <;> simp [ofParts, List.intercalate, hpart]

def front (absolute : Bool) : List Bytes := if absolute then [[]] else []

inductive CleanParts : (absolute : Bool) → List Bytes → Prop
  | root : CleanParts true [[], []]
  | here : CleanParts false [here]
  | up (n : Nat) : CleanParts false (List.replicate (n + 1) parent)
  | name {absolute : Bool} {part : Bytes} {below : List Bytes} (hpart : IsName part)
      (hbelow : Stacked absolute below) :
      CleanParts absolute (front absolute ++ below.reverse ++ [part])

theorem CleanParts.ne_nil {shown : List Bytes} (h : CleanParts false shown) : [] ∉ shown := by
  cases h with
  | here => decide
  | up n => exact fun hmem => nomatch List.eq_of_mem_replicate hmem
  | name hpart hbelow =>
    intro hmem
    simp only [front, Bool.false_eq_true, if_false, List.nil_append, List.mem_append,
      List.mem_reverse, List.mem_singleton] at hmem
    exact hmem.elim hbelow.ne_nil fun h => hpart.ne_nil h.symm

theorem parts_slash_cons (s : Bytes) : parts (Ascii.slash :: s) = [] :: parts s := by
  rw [parts, Text.splitOn, if_pos rfl, parts]

theorem cleanParts_clean (path : Bytes) : CleanParts (isAbsolute path) (parts (clean path)) := by
  have hstacked : Stacked (isAbsolute path) ((parts path).foldl (cleanPart (isAbsolute path)) []) :=
    stacked_foldl_cleanPart (.up 0 fun _ => rfl) fun _ => Text.notMem_of_mem_splitOn
  rw [clean]
  revert hstacked
  generalize (parts path).foldl (cleanPart (isAbsolute path)) [] = done
  generalize isAbsolute path = absolute
  intro hstacked
  have hkept : done ≠ [] → parts (ofParts done.reverse) = done.reverse := fun hdone =>
    parts_ofParts (by simpa using hdone) (by simpa using hstacked.noSlash)
  have hnil : ofParts done.reverse = [] ↔ done = [] := by
    rw [ofParts_eq_nil_iff (by simpa using hstacked.ne_nil), List.reverse_eq_nil_iff]
  cases hstacked with
  | up n hn =>
    cases n with
    | zero =>
      cases absolute with
      | true => exact .root
      | false => exact .here
    | succ n =>
      cases absolute with
      | true => cases hn rfl
      | false =>
        have hparts := hkept (by simp)
        rw [List.reverse_replicate] at hparts hnil ⊢
        simp only [Bool.false_eq_true, if_false]
        rw [if_neg (by simp [hnil]), hparts]
        exact .up n
  | @name part below hpart hbelow =>
    have hparts := hkept (List.cons_ne_nil _ _)
    have hclean := CleanParts.name hpart hbelow
    cases absolute with
    | true =>
      simp only [if_true]
      rw [parts_slash_cons, hparts, List.reverse_cons]
      exact hclean
    | false =>
      simp only [Bool.false_eq_true, if_false]
      rw [if_neg (mt hnil.mp (List.cons_ne_nil _ _)), hparts, List.reverse_cons]
      exact hclean

theorem isAbsolute_clean (path : Bytes) : isAbsolute (clean path) = isAbsolute path := by
  have hshown := cleanParts_clean path
  cases habsolute : isAbsolute path with
  | true => rw [clean, habsolute]; rfl
  | false =>
    rw [habsolute] at hshown
    rw [Bool.eq_false_iff]
    intro hclean
    -- The first part of a path that starts at the root is empty, but no part here is.
    obtain ⟨rest, hrest⟩ : ∃ rest, clean path = Ascii.slash :: rest :=
      List.head?_eq_some_iff.mp (by simpa [isAbsolute] using hclean)
    rw [hrest, parts_slash_cons] at hshown
    exact hshown.ne_nil List.mem_cons_self

end Path

namespace FileTree

variable {t : FileTree} {place : List Bytes}

theorem at?_of_isOutside (h : isOutside place = true) : t.at? place = some .directory := by
  rw [at?, if_pos (.inl h)]

theorem at?_root : t.at? root = some .directory := by rw [at?, if_pos (.inr rfl)]

theorem follow_append (place : List Bytes) (parts others : List Bytes) :
    t.follow place (parts ++ others) = t.follow place parts >>= (t.follow · others) := by
  induction parts generalizing place with
  | nil => rfl
  | cons part parts ih =>
    rw [List.cons_append, follow, follow]
    cases t.at? place with
    | none => rfl
    | some node =>
      cases node with
      | file content => rfl
      | directory =>
        dsimp only
        split_ifs <;> first | exact ih _ | rfl

theorem follow_name {part : Bytes} {place place' : List Bytes} (hpart : Path.IsName part)
    (h : t.follow place [part] = .ok place') : place' = place ++ [part] := by
  rw [follow] at h
  split at h
  · cases h
  · cases h
  · rw [if_neg (not_or.mpr ⟨hpart.ne_nil, hpart.ne_here⟩), if_neg hpart.ne_parent] at h
    split_ifs at h
    cases h
    rfl

theorem exists_of_bind_ok {α β : Type} {x : Except FileFailure α} {f : α → Except FileFailure β}
    {b : β} (h : x >>= f = .ok b) : ∃ a, x = .ok a ∧ f a = .ok b := by
  cases x with
  | error failure => cases h
  | ok a => exact ⟨a, rfl, h⟩

theorem isOutside_replicate (n : Nat) : isOutside (List.replicate n Path.parent) = true := by
  simp [isOutside]

theorem root_ne_replicate (n : Nat) : List.replicate n Path.parent ≠ root := by
  cases n with
  | zero => decide
  | succ n => simp [root, List.replicate_succ]

theorem follow_up (t : FileTree) (n up : Nat) :
    t.follow (List.replicate n Path.parent) (List.replicate up Path.parent) =
      .ok (List.replicate (n + up) Path.parent) := by
  induction up generalizing n with
  | zero => rfl
  | succ up ih =>
    have habove : above (List.replicate n Path.parent) = List.replicate (n + 1) Path.parent := by
      rw [above, if_neg (root_ne_replicate n), if_pos (isOutside_replicate n),
        ← List.replicate_succ']
    rw [List.replicate_succ, follow, at?_of_isOutside (isOutside_replicate n)]
    dsimp only
    rw [if_neg (by decide), if_pos rfl, habove, ih, Nat.add_right_comm, Nat.add_assoc]

theorem follow_stacked {absolute : Bool} {done place : List Bytes}
    (h : Path.Stacked absolute done)
    (hplace : t.follow (Path.front absolute) done.reverse = .ok place) :
    place = Path.front absolute ++ done.reverse := by
  induction h generalizing place with
  | up n hn =>
    rw [List.reverse_replicate] at hplace ⊢
    cases absolute with
    | true =>
      obtain rfl := hn rfl
      cases hplace
      rfl
    | false =>
      have hup := follow_up t 0 n
      rw [Nat.zero_add] at hup
      cases hup.symm.trans hplace
      rfl
  | name hpart hbelow ih =>
    rw [List.reverse_cons, follow_append] at hplace
    obtain ⟨mid, hmid, hlast⟩ := exists_of_bind_ok hplace
    rw [follow_name hpart hlast, ih hmid, List.reverse_cons, List.append_assoc]

theorem follow_front (t : FileTree) (absolute : Bool) (parts : List Bytes) :
    t.follow (Path.front absolute) (Path.front absolute ++ parts) =
      t.follow (Path.front absolute) parts := by
  cases absolute with
  | true =>
    have hroot : t.at? (Path.front true) = some .directory := at?_root
    rw [show Path.front true ++ parts = [] :: parts from rfl, follow, hroot]
    exact if_pos (.inl rfl)
  | false => rfl

theorem startOf_clean (path : Bytes) :
    startOf (Path.clean path) = Path.front (Path.isAbsolute path) := by
  rw [startOf, Path.isAbsolute_clean]
  rfl

/-- A file at a cleaned path stands where the path says. All other cleaned paths lead to
directories. -/
theorem locateFile_clean {path : Bytes} {place : List Bytes}
    (h : t.locateFile (Path.clean path) = .ok place) :
    place = Path.parts (Path.clean path) ∨ t.at? place = some .directory := by
  have hshown := Path.cleanParts_clean path
  obtain ⟨-, -, h⟩ := exists_of_bind_ok h
  rw [startOf_clean] at h
  revert h hshown
  generalize Path.parts (Path.clean path) = shown
  generalize Path.isAbsolute path = absolute
  intro hshown h
  cases hshown with
  | root =>
    cases h
    exact .inr at?_root
  | here =>
    cases h
    exact .inr rfl
  | up n =>
    have htrimmed : ((List.replicate (n + 1) Path.parent).reverse.dropWhile (· = [])).reverse =
        List.replicate (n + 1) Path.parent := by
      rw [List.reverse_replicate, List.replicate_succ, List.dropWhile_cons_of_neg (by decide),
        ← List.replicate_succ, List.reverse_replicate]
    have hname : (List.replicate (n + 1) Path.parent).getLastD [] = Path.parent := by
      rw [List.replicate_succ', List.getLastD_concat]
    simp only [htrimmed, hname, or_true, if_true] at h
    have hup := follow_up t 0 (n + 1)
    cases hup.symm.trans h
    exact .inr (at?_of_isOutside (isOutside_replicate _))
  | @name _ part below hpart hbelow =>
    left
    have htrimmed : ((Path.front absolute ++ below.reverse ++ [part]).reverse.dropWhile
        (· = [])).reverse = Path.front absolute ++ below.reverse ++ [part] := by
      rw [List.reverse_append]
      simp [hpart.ne_nil]
    have hname : ¬(part = [] ∨ part = Path.here ∨ part = Path.parent) := by
      simp [hpart.ne_nil, hpart.ne_here, hpart.ne_parent]
    simp only [htrimmed, List.getLastD_concat, hname, if_false, List.dropLast_concat,
      follow_front] at h
    obtain ⟨directory, hdirectory, h⟩ := exists_of_bind_ok h
    rw [← follow_stacked hbelow hdirectory]
    split_ifs at h <;> cases h
    rfl

-- ---------------------------------------------------------------------------
-- Changes
-- ---------------------------------------------------------------------------

def SameBut (places : List (List Bytes)) (t later : FileTree) : Prop :=
  ∀ place ∉ places, later.at? place = t.at? place

section

variable {later last : FileTree} {places : List (List Bytes)}

theorem SameBut.refl (places : List (List Bytes)) (t : FileTree) : SameBut places t t :=
  fun _ _ => rfl

theorem SameBut.trans (h : SameBut places t later) (h' : SameBut places later last) :
    SameBut places t last :=
  fun place hplace => (h' place hplace).trans (h place hplace)

theorem SameBut.mono {others : List (List Bytes)} (h : SameBut places t later)
    (hsub : places ⊆ others) : SameBut others t later :=
  fun place hplace => h place fun hmem => hplace (hsub hmem)

theorem sameBut_set (t : FileTree) (place : List Bytes) (node : FileNode) :
    SameBut [place] t (t.set place node) := by
  intro other hother
  have hne : other ≠ place := by simpa using hother
  have hlookup : ∀ nodes : List (List Bytes × FileNode),
      (nodes.filter (·.1 ≠ place) ++ [(place, node)]).lookup other = nodes.lookup other := by
    intro nodes
    induction nodes with
    | nil => simp [List.lookup_cons, beq_false_of_ne hne]
    | cons first nodes ih =>
      by_cases hfirst : first.1 = place
      · have hskip : (other == first.1) = false := beq_false_of_ne (hfirst ▸ hne)
        rw [List.filter_cons_of_neg (by simp [hfirst]), ih, List.lookup_cons, hskip]
      · rw [List.filter_cons_of_pos (by simp [hfirst]), List.cons_append, List.lookup_cons,
          List.lookup_cons, ih]
  simp only [at?, set, hlookup]

theorem sameBut_addDirectories (t : FileTree) (places : List (List Bytes)) :
    SameBut places t (t.addDirectories places) := by
  induction places generalizing t with
  | nil => exact .refl [] t
  | cons place places ih =>
    have hfirst : SameBut [place] t
        (if (t.at? place).isSome then t else t.set place .directory) := by
      split_ifs
      · exact .refl _ t
      · exact sameBut_set t place .directory
    exact (hfirst.mono (by simp)).trans ((ih _).mono (List.subset_cons_self _ _))

/-- The places of a directory and of those above it. -/
def directoryPlaces (path : Bytes) : List (List Bytes) :=
  ancestors (Path.parts (Path.clean path)) ++ [Path.parts (Path.clean path)]

theorem sameBut_makeDirectories {path : Bytes} (h : t.makeDirectories path = .ok later) :
    SameBut (directoryPlaces path) t later := by
  unfold makeDirectories at h
  dsimp only at h
  split at h
  · cases h
  · cases h
    exact sameBut_addDirectories t _

/-- A file that is written at a cleaned path is all that changes. -/
theorem sameBut_write_clean {path : Bytes} {content : FileContent} {mustBeNew : Bool}
    (h : t.write (Path.clean path) content mustBeNew = .ok later) :
    SameBut [Path.parts (Path.clean path)] t later := by
  obtain ⟨place, hplace, hwrite⟩ := exists_of_bind_ok h
  rcases locateFile_clean hplace with rfl | hdirectory
  · have hset : t.set (Path.parts (Path.clean path)) (.file content) = later := by
      split at hwrite
      · cases hwrite
      · cases mustBeNew <;> cases hwrite
        rfl
      · cases hwrite
        rfl
    exact hset ▸ sameBut_set t _ _
  · rw [hdirectory] at hwrite
    cases hwrite

end

end FileTree
end ClassHeader
