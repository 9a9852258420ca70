import ClassHeader.ClassPath.Basic
import ClassHeader.Proofs.Result

/-!
# Entries of class paths and what an index says about them

Work on a class path opens entries and keeps them open. What an entry is opened
as does not change that way, so the result of such work depends on `opened` only.
An index is seen through its two questions: which paths it knows, and which
classes it records for a path.
-/

namespace ClassHeader

-- ---------------------------------------------------------------------------
-- Archives
-- ---------------------------------------------------------------------------

def Source.Holds (entries : List ArchiveEntry) (name : Bytes) : Prop :=
  ∃ e ∈ entries, className? e.name = some name

namespace Source

variable {entries : List ArchiveEntry} {name path : Bytes} {t : FileTree}

theorem isSome_entryData? : (entryData? entries name).isSome ↔ Holds entries name := by
  simp [entryData?, Holds]

theorem fetch_of_holds (t : FileTree) (path : Bytes) (h : Holds entries name) :
    ∃ stream, (archive path entries).fetch t name = .ok stream := by
  obtain ⟨data, hdata⟩ := Option.isSome_iff_exists.mp (isSome_entryData?.mpr h)
  exact ⟨{ data }, by simp [fetch, hdata]⟩

theorem fetch_of_not_holds (h : ¬Holds entries name) :
    (archive path entries).fetch t name = .error (notFound name) := by
  rw [← isSome_entryData?, Option.not_isSome_iff_eq_none] at h
  simp only [fetch, h]
  rfl

theorem isNotFound_notFound (name : Bytes) : ClassPath.isNotFound (notFound name) = true := rfl

end Source

-- ---------------------------------------------------------------------------
-- Indexes
-- ---------------------------------------------------------------------------

namespace Index

variable {x : Index} {path name : Bytes}

def Knows (x : Index) (path : Bytes) : Prop := x.knows path = .ok true

instance (x : Index) (path : Bytes) : Decidable (x.Knows path) :=
  inferInstanceAs (Decidable (x.knows path = .ok true))

def Records (x : Index) (path name : Bytes) : Prop :=
  ∃ holders, x.archivesOf name = .ok holders ∧ path ∈ holders

theorem knows_of_isOpen (h : x.isOpen = true) (path : Bytes) :
    x.knows path = .ok (x.record? path).isSome := by
  simp [knows, ensureOpen, ensure, h]

theorem archivesOf_of_isOpen (h : x.isOpen = true) (name : Bytes) :
    x.archivesOf name = .ok ((x.records.filter (name ∈ ·.classes)).map (·.path)) := by
  simp [archivesOf, ensureOpen, ensure, h]

theorem knows_iff (h : x.isOpen = true) : x.Knows path ↔ ∃ r ∈ x.records, r.path = path := by
  simp [Knows, knows_of_isOpen h, record?]

theorem records_iff (h : x.isOpen = true) :
    x.Records path name ↔ ∃ r ∈ x.records, r.path = path ∧ name ∈ r.classes := by
  simp only [Records, archivesOf_of_isOpen h, Except.ok.injEq, exists_eq_left', List.mem_map,
    List.mem_filter, decide_eq_true_eq]
  grind

theorem Records.knows (hopen : x.isOpen = true) (h : x.Records path name) : x.Knows path := by
  obtain ⟨r, hr, hpath, -⟩ := (records_iff hopen).mp h
  exact (knows_iff hopen).mpr ⟨r, hr, hpath⟩

end Index

-- ---------------------------------------------------------------------------
-- Work on a class path
-- ---------------------------------------------------------------------------

namespace ClassPath

variable {α β : Type} {t : FileTree} {cp later : ClassPath}

@[simp] theorem run_get : (get : ClassPathM ClassPath).run.run cp = (.ok cp, cp) := rfl

theorem run_tryCatch (x : ClassPathM α) (handle : Error → ClassPathM α) :
    (tryCatch x handle).run.run cp =
      match x.run.run cp with
      | (.ok a, later) => (.ok a, later)
      | (.error e, later) => (handle e).run.run later := by
  rw [ExceptT.run_tryCatch, StateT.run_bind]
  rcases x.run.run cp with ⟨result, later⟩
  cases result <;> rfl

/-- What an entry is opened as: the source that is open for it, or else what stands at its
path. -/
def opened (t : FileTree) (cp : ClassPath) (entry : Bytes) : Result Source :=
  match cp.sources.lookup entry with
  | some s => .ok s
  | none => Source.ofPath t entry

/-- Both class paths have the same entries and index, and open the entries as the same sources. -/
structure OpensLike (t : FileTree) (cp later : ClassPath) : Prop where
  entries : later.entries = cp.entries
  index : later.index = cp.index
  opened : later.opened t = cp.opened t

theorem OpensLike.refl (cp : ClassPath) : OpensLike t cp cp := ⟨rfl, rfl, rfl⟩

theorem OpensLike.trans {last : ClassPath} (h : OpensLike t cp later)
    (h' : OpensLike t later last) : OpensLike t cp last :=
  ⟨h'.entries.trans h.entries, h'.index.trans h.index, h'.opened.trans h.opened⟩

/-- Work on `cp` has this result and leaves what the entries are opened as. -/
def Gives (t : FileTree) (x : ClassPathM α) (cp : ClassPath) (result : Result α) : Prop :=
  ∃ later, x.run.run cp = (result, later) ∧ OpensLike t cp later

theorem Gives.bind {x : ClassPathM α} {f : α → ClassPathM β} {result : Result α}
    {next : α → Result β} (hx : Gives t x cp result)
    (hf : ∀ a later, OpensLike t cp later → Gives t (f a) later (next a)) :
    Gives t (x >>= f) cp (result >>= next) := by
  obtain ⟨later, hrun, hlike⟩ := hx
  cases result with
  | error e => exact ⟨later, by rw [Result.run_bind, hrun]; rfl, hlike⟩
  | ok a =>
    obtain ⟨last, hnext, hlike'⟩ := hf a later hlike
    exact ⟨last, by rw [Result.run_bind, hrun]; exact hnext, hlike.trans hlike'⟩

theorem Gives.ofExcept (result : Result α) : Gives t (MonadExcept.ofExcept result) cp result := by
  cases result <;> exact ⟨cp, rfl, .refl cp⟩

theorem Gives.pure (a : α) : Gives t (pure a) cp (.ok a) := ⟨cp, rfl, .refl cp⟩

theorem Gives.throw (e : Error) : Gives t (throw e : ClassPathM α) cp (.error e) :=
  ⟨cp, rfl, .refl cp⟩

theorem opensLike_remember {entry : Bytes} {s : Source} (hnew : cp.sources.lookup entry = none)
    (hs : Source.ofPath t entry = .ok s) :
    OpensLike t cp { cp with sources := (entry, s) :: cp.sources } := by
  refine ⟨rfl, rfl, funext fun other => ?_⟩
  by_cases hother : other = entry
  · subst hother
    simp [opened, hnew, hs]
  · have hne : (other == entry) = false := beq_false_of_ne hother
    simp only [opened, List.lookup_cons, hne]

theorem source_gives (t : FileTree) (entry : Bytes) (cp : ClassPath) :
    Gives t (source t entry) cp (cp.opened t entry) := by
  unfold source opened
  simp only [Gives, Result.run_bind, run_get]
  cases hlookup : cp.sources.lookup entry with
  | some s => exact ⟨cp, rfl, .refl cp⟩
  | none =>
    cases hs : Source.ofPath t entry with
    | error e => exact ⟨cp, rfl, .refl cp⟩
    | ok s => exact ⟨_, rfl, opensLike_remember hlookup hs⟩

end ClassPath
end ClassHeader
