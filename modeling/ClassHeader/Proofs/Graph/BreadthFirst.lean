import ClassHeader.Graph.Collect
import Mathlib

/-!
# Breadth-first discovery

The order in which a breadth-first search finds names, stated without a queue:
what is known after one more round is the start and all that the names known so
far lead to, name by name, each at its first mention. Every round extends the one
before, and where only finitely many names can be reached, as many rounds as there
are names find them all.
-/

namespace ClassHeader

namespace ClassFile

-- ---------------------------------------------------------------------------
-- First mentions
-- ---------------------------------------------------------------------------

variable {seen seen' names : List Bytes} {name : Bytes}

@[simp] theorem mem_distinctFrom : name ∈ distinctFrom seen names ↔ name ∈ names ∧ name ∉ seen := by
  induction names generalizing seen with
  | nil => simp [distinctFrom]
  | cons first rest ih =>
    rw [distinctFrom]
    split
    · rename_i hseen
      rw [ih, List.mem_cons]
      constructor
      · rintro ⟨hrest, hnew⟩
        exact ⟨.inr hrest, hnew⟩
      · rintro ⟨rfl | hrest, hnew⟩
        · exact absurd hseen hnew
        · exact ⟨hrest, hnew⟩
    · rename_i hnew
      rw [List.mem_cons, ih, List.mem_cons, List.mem_cons, not_or]
      constructor
      · rintro (rfl | ⟨hrest, _, hname⟩)
        · exact ⟨.inl rfl, hnew⟩
        · exact ⟨.inr hrest, hname⟩
      · rintro ⟨rfl | hrest, hname⟩
        · exact .inl rfl
        · exact (em (name = first)).imp_right fun hne => ⟨hrest, hne, hname⟩

theorem nodup_distinctFrom (seen names : List Bytes) : (distinctFrom seen names).Nodup := by
  induction names generalizing seen with
  | nil => simp [distinctFrom]
  | cons first rest ih =>
    rw [distinctFrom]
    split
    · exact ih seen
    · refine List.nodup_cons.mpr ⟨fun hmem => ?_, ih _⟩
      exact (mem_distinctFrom.mp hmem).2 List.mem_cons_self

/-- Only what the known names are counts, not their order. -/
theorem distinctFrom_congr (names : List Bytes) (h : ∀ name, name ∈ seen ↔ name ∈ seen') :
    distinctFrom seen names = distinctFrom seen' names := by
  induction names generalizing seen seen' with
  | nil => rfl
  | cons first rest ih =>
    have hfirst : ∀ name, name ∈ first :: seen ↔ name ∈ first :: seen' := by simp [h]
    simp only [distinctFrom, h first]
    rw [ih h, ih hfirst]

theorem distinctFrom_append (seen names names' : List Bytes) :
    distinctFrom seen (names ++ names') =
      distinctFrom seen names ++ distinctFrom (seen ++ distinctFrom seen names) names' := by
  induction names generalizing seen with
  | nil => simp [distinctFrom]
  | cons first rest ih =>
    rw [List.cons_append, distinctFrom, distinctFrom]
    split
    · exact ih seen
    · rw [ih, List.cons_append]
      congr 2
      exact distinctFrom_congr names' fun name => List.perm_middle.symm.mem_iff

theorem distinctFrom_eq_eraseDups (seen names : List Bytes) :
    distinctFrom seen names = (names.filter (· ∉ seen)).eraseDups := by
  induction names generalizing seen with
  | nil => rfl
  | cons first rest ih =>
    rw [distinctFrom]
    split
    · rename_i hseen
      rw [ih, List.filter_cons_of_neg (by simpa using hseen)]
    · rename_i hnew
      rw [ih, List.filter_cons_of_pos (by simpa using hnew), List.eraseDups_cons,
        List.filter_filter]
      congr 2
      refine List.filter_congr fun name _ => ?_
      by_cases hname : name = first <;> simp [hname]

end ClassFile

-- ---------------------------------------------------------------------------
-- Rounds of discovery
-- ---------------------------------------------------------------------------

/-- What is known once all names of a list have been followed. -/
def followed (next : Bytes → List Bytes) (main : Bytes) (names : List Bytes) : List Bytes :=
  (main :: names.flatMap next).eraseDups

/-- The names that are fewer than `rounds` steps away from `main`, in the order of a breadth-first
search. -/
def discovered (next : Bytes → List Bytes) (main : Bytes) : (rounds : Nat) → List Bytes
  | 0 => []
  | rounds + 1 => followed next main (discovered next main rounds)

def ReachedBy (next : Bytes → List Bytes) (main name : Bytes) : Prop :=
  Relation.ReflTransGen (fun source target => target ∈ next source) main name

variable {next : Bytes → List Bytes} {main name : Bytes} {names names' : List Bytes}

theorem followed_eq (next : Bytes → List Bytes) (main : Bytes) (names : List Bytes) :
    followed next main names = main :: ClassFile.distinctFrom [main] (names.flatMap next) := by
  rw [followed, List.eraseDups_cons, ClassFile.distinctFrom_eq_eraseDups]
  congr 2
  refine List.filter_congr fun name _ => ?_
  by_cases hname : name = main <;> simp [hname]

@[simp] theorem mem_followed :
    name ∈ followed next main names ↔ name = main ∨ ∃ source ∈ names, name ∈ next source := by
  rw [followed, List.mem_eraseDups, List.mem_cons, List.mem_flatMap]

theorem nodup_followed (next : Bytes → List Bytes) (main : Bytes) (names : List Bytes) :
    (followed next main names).Nodup := by
  rw [followed_eq]
  refine List.nodup_cons.mpr ⟨fun hmem => ?_, ClassFile.nodup_distinctFrom _ _⟩
  exact (ClassFile.mem_distinctFrom.mp hmem).2 List.mem_cons_self

theorem followed_append (next : Bytes → List Bytes) (main : Bytes) (names names' : List Bytes) :
    followed next main (names ++ names') = followed next main names ++
      ClassFile.distinctFrom (followed next main names) (names'.flatMap next) := by
  rw [followed_eq, List.flatMap_append, ClassFile.distinctFrom_append, followed_eq]
  rfl

theorem followed_prefix (h : names <+: names') :
    followed next main names <+: followed next main names' := by
  obtain ⟨others, rfl⟩ := h
  rw [followed_append]
  exact List.prefix_append _ _

theorem nodup_discovered (next : Bytes → List Bytes) (main : Bytes) (rounds : Nat) :
    (discovered next main rounds).Nodup := by
  cases rounds with
  | zero => exact List.nodup_nil
  | succ rounds => exact nodup_followed _ _ _

theorem reachedBy_of_mem_discovered {rounds : Nat} (h : name ∈ discovered next main rounds) :
    ReachedBy next main name := by
  induction rounds generalizing name with
  | zero => cases h
  | succ rounds ih =>
    rcases mem_followed.mp h with rfl | ⟨source, hsource, hname⟩
    · exact .refl
    · exact (ih hsource).tail hname

theorem discovered_prefix_succ (next : Bytes → List Bytes) (main : Bytes) (rounds : Nat) :
    discovered next main rounds <+: discovered next main (rounds + 1) := by
  induction rounds with
  | zero => exact List.nil_prefix
  | succ rounds ih => exact followed_prefix ih

/-- A round either finds a new name or finds that there are no others. -/
theorem closed_or_le_length (next : Bytes → List Bytes) (main : Bytes) (rounds : Nat) :
    followed next main (discovered next main rounds) = discovered next main rounds ∨
      rounds ≤ (discovered next main rounds).length := by
  induction rounds with
  | zero => exact .inr (Nat.zero_le _)
  | succ rounds ih =>
    have hgrows := discovered_prefix_succ next main rounds
    rcases Nat.lt_or_ge rounds (discovered next main (rounds + 1)).length with hlt | hge
    · exact .inr hlt
    · refine .inl ?_
      have hclosed : followed next main (discovered next main rounds) =
          discovered next main rounds := by
        rcases ih with hclosed | hlong
        · exact hclosed
        · exact (hgrows.eq_of_length_le (hge.trans hlong)).symm
      rw [discovered, hclosed, hclosed]

theorem mem_of_reachedBy (hclosed : followed next main names = names)
    (h : ReachedBy next main name) : name ∈ names := by
  induction h with
  | refl =>
    rw [← hclosed]
    exact mem_followed.mpr (.inl rfl)
  | tail _ hstep ih =>
    rw [← hclosed]
    exact mem_followed.mpr (.inr ⟨_, ih, hstep⟩)

-- ---------------------------------------------------------------------------
-- Finitely many names
-- ---------------------------------------------------------------------------

variable (hfinite : {name | ReachedBy next main name}.Finite)

include hfinite

theorem length_discovered_le (rounds : Nat) :
    (discovered next main rounds).length ≤ {name | ReachedBy next main name}.ncard := by
  have hsub : (discovered next main rounds).toFinset ⊆ hfinite.toFinset := by
    intro name hname
    rw [Set.Finite.mem_toFinset]
    exact reachedBy_of_mem_discovered (List.mem_toFinset.mp hname)
  rw [Set.ncard_eq_toFinset_card _ hfinite,
    ← List.toFinset_card_of_nodup (nodup_discovered next main rounds)]
  exact Finset.card_le_card hsub

theorem followed_discovered_ncard :
    followed next main (discovered next main {name | ReachedBy next main name}.ncard) =
      discovered next main {name | ReachedBy next main name}.ncard := by
  rcases closed_or_le_length next main {name | ReachedBy next main name}.ncard with hclosed | hlong
  · exact hclosed
  · have hall := length_discovered_le hfinite ({name | ReachedBy next main name}.ncard + 1)
    exact ((discovered_prefix_succ next main _).eq_of_length_le (hall.trans hlong)).symm

theorem mem_discovered_ncard :
    name ∈ discovered next main {name | ReachedBy next main name}.ncard ↔
      ReachedBy next main name :=
  ⟨reachedBy_of_mem_discovered, mem_of_reachedBy (followed_discovered_ncard hfinite)⟩

theorem discovered_prefix_ncard (rounds : Nat) :
    discovered next main rounds <+:
      discovered next main {name | ReachedBy next main name}.ncard := by
  induction rounds with
  | zero => exact List.nil_prefix
  | succ rounds ih =>
    rw [← followed_discovered_ncard hfinite]
    exact followed_prefix ih

end ClassHeader
