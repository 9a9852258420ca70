import ClassHeader.Explorer
import ClassHeader.Proofs.Text.Basic
import ClassHeader.Proofs.Text.Utf8

/-!
# Browsing

Whatever a browser is told, in whatever order, and whatever the line editor makes of
the keys: the list shows the classes that match the query, the selection stays inside
it, details are shown only of a class that is there, and the selected class is among
the rows that are drawn. Only the end of collecting may not be told twice.
-/

namespace ClassHeader.Explorer

inductive Event where
  | resized (height : Nat)
  | collected (outcome : Result Graph)
  /-- A key, what editing makes of the query, and what is found if the key asks for a class. -/
  | key (key : Key) (edited : LineEditor) (found : Result ResolvedClass)

def Event.isCollected : Event → Bool
  | .collected _ => true
  | _ => false

def answered (x : Explorer) (found : Result ResolvedClass) (reply : Reply) : Explorer :=
  match reply, x.graph with
  | .describe name, some graph => { x with details := describe x.draw graph name found }
  | _, _ => x

def receive (x : Explorer) : Event → Explorer
  | .resized height => x.resized height
  | .collected outcome => x.collected outcome
  | .key key edited found =>
    let (x, reply) := x.pressEditing edited key
    x.answered found reply

def run (x : Explorer) (events : List Event) : Explorer := events.foldl receive x

/-- A session tells the browser each key together with what its line editor makes of it. -/
theorem handle_eq_receive {m : Type → Type} [Monad m] [LawfulMonad m] (options : SessionOptions)
    (provider : Provider m) (x : Explorer) (key : Key) :
    ∃ ask : StateT Session m (Result ResolvedClass), x.handle options provider key = do
      let found ← ask
      return (x.receive (.key key (edit x.query key) found), decide ((x.press key).2 = .quit)) := by
  rcases hpress : x.press key with ⟨x', reply⟩
  have hreceive : ∀ found, x.receive (.key key (edit x.query key) found) =
      x'.answered found reply := fun found => by
    rw [receive, ← press, hpress]
  simp only [handle, hpress, hreceive]
  cases reply with
  | describe name =>
    cases hgraph : x'.graph with
    | some graph =>
      refine ⟨(Session.resolve options provider name).run, ?_⟩
      simp [answered, hgraph]
    | none =>
      refine ⟨pure (.error (.plain [])), ?_⟩
      simp [answered, hgraph]
  | _ =>
    refine ⟨pure (.error (.plain [])), ?_⟩
    simp [answered]

-- ---------------------------------------------------------------------------
-- What a key can do
-- ---------------------------------------------------------------------------

inductive Change (x : Explorer) (edited : LineEditor) : Explorer → Prop
  | stay : Change x edited x
  | move {selected : Nat} (h : selected ≤ x.selected ∨ selected < x.visible.length) :
      Change x edited { x with selected }
  | turn {mode : Mode} (h : mode ≠ .detail) : Change x edited { x with mode }
  | enter {name : Bytes} (h : x.visible[x.selected]? = some name) :
      Change x edited { x with mode := .detail }
  | edit (h : x.mode ≠ .detail) : Change x edited (applyQuery { x with query := edited })

variable {x : Explorer} {edited : LineEditor} {key : Key}

theorem pressBrowse_change : Change x edited (x.pressBrowse key).1 := by
  unfold pressBrowse
  split
  · exact .move (.inl (Nat.sub_le _ _))
  · exact .move (.inl (Nat.sub_le _ _))
  · unfold moveDown
    split_ifs with h
    · exact .move (.inr h)
    · exact .stay
  · unfold moveDown
    split_ifs with h
    · exact .move (.inr h)
    · exact .stay
  · exact .stay
  · exact .turn (by decide)
  · split
    · exact .enter ‹_›
    · exact .stay
  · exact .stay

theorem pressEditing_change : Change x edited (x.pressEditing edited key).1 := by
  unfold pressEditing
  split_ifs
  · exact .stay
  · cases hmode : x.mode with
    | browse => exact pressBrowse_change
    | filter =>
      dsimp only
      unfold pressFilter
      split
      · exact .turn (by decide)
      · exact .turn (by decide)
      · exact .edit (by simp [hmode])
    | detail =>
      dsimp only
      unfold pressDetail
      split
      · exact .stay
      · exact .turn (by decide)
      · exact .turn (by decide)
      · exact .stay

-- ---------------------------------------------------------------------------
-- What each event keeps
-- ---------------------------------------------------------------------------

structure Consistent (x : Explorer) : Prop where
  visible_eq : x.visible = x.order.filter (isMatch x.query.text)
  /-- A selection of 0 where nothing is visible. -/
  selected_le : x.selected ≤ x.visible.length - 1
  visible_ne_nil : x.mode = .detail → x.visible ≠ []

theorem consistent_initial (main : Bytes) (draw : Bytes → Bytes) :
    Consistent { main, draw } where
  visible_eq := rfl
  selected_le := Nat.zero_le _
  visible_ne_nil h := by cases h

theorem consistent_applyQuery (h : x.mode ≠ .detail) : (applyQuery x).Consistent where
  visible_eq := rfl
  selected_le := by
    unfold applyQuery
    dsimp only
    split_ifs <;> omega
  visible_ne_nil hmode := absurd hmode h

theorem Consistent.change (h : x.Consistent) {x' : Explorer} (hx' : Change x edited x') :
    x'.Consistent := by
  cases hx' with
  | stay => exact h
  | move hmove =>
    refine ⟨h.visible_eq, ?_, h.visible_ne_nil⟩
    have hle := h.selected_le
    dsimp only
    omega
  | turn hmode => exact ⟨h.visible_eq, h.selected_le, fun hdetail => absurd hdetail hmode⟩
  | enter hname =>
    exact ⟨h.visible_eq, h.selected_le, fun _ => List.ne_nil_of_mem (List.mem_of_getElem? hname)⟩
  | edit hmode => exact consistent_applyQuery hmode

theorem Consistent.answered (h : x.Consistent) (found : Result ResolvedClass) (reply : Reply) :
    (x.answered found reply).Consistent := by
  unfold Explorer.answered
  split
  · exact ⟨h.visible_eq, h.selected_le, h.visible_ne_nil⟩
  · exact h

theorem Consistent.collected (h : x.Consistent) (hmode : x.mode ≠ .detail)
    (outcome : Result Graph) : (x.collected outcome).Consistent := by
  cases outcome with
  | error e => exact ⟨h.visible_eq, h.selected_le, h.visible_ne_nil⟩
  | ok graph =>
    rw [Explorer.collected, showGraph]
    split
    · exact consistent_applyQuery hmode
    · exact consistent_applyQuery hmode

/-- One event; only a graph must not come while details are shown. -/
theorem Consistent.receive (h : x.Consistent) {event : Event}
    (hevent : event.isCollected = true → x.mode ≠ .detail) : (x.receive event).Consistent := by
  cases event with
  | resized height => exact ⟨h.visible_eq, h.selected_le, h.visible_ne_nil⟩
  | collected outcome => exact h.collected (hevent rfl) outcome
  | key key edited found => exact (h.change pressEditing_change).answered found _

theorem Change.order_and_draw {x' : Explorer} (h : Change x edited x') :
    x'.order = x.order ∧ x'.draw = x.draw := by
  cases h <;> exact ⟨rfl, rfl⟩

theorem order_and_draw_answered (x : Explorer) (found : Result ResolvedClass) (reply : Reply) :
    (x.answered found reply).order = x.order ∧ (x.answered found reply).draw = x.draw := by
  unfold Explorer.answered
  split <;> exact ⟨rfl, rfl⟩

theorem order_receive {event : Event} (h : event.isCollected = false) :
    (x.receive event).order = x.order := by
  cases event with
  | resized height => rfl
  | collected outcome => cases h
  | key key edited found =>
    exact (order_and_draw_answered _ _ _).1.trans pressEditing_change.order_and_draw.1

theorem draw_receive (x : Explorer) (event : Event) : (x.receive event).draw = x.draw := by
  cases event with
  | resized height => rfl
  | collected outcome =>
    cases outcome with
    | error e => rfl
    | ok graph =>
      simp only [receive, collected, showGraph]
      split <;> rfl
  | key key edited found =>
    exact (order_and_draw_answered _ _ _).2.trans pressEditing_change.order_and_draw.2

theorem draw_run (x : Explorer) (events : List Event) : (x.run events).draw = x.draw := by
  induction events generalizing x with
  | nil => rfl
  | cons event events ih => exact (ih (x.receive event)).trans (draw_receive x event)

theorem Consistent.mode_ne_detail (h : x.Consistent) (horder : x.order = []) :
    x.mode ≠ .detail := fun hmode =>
  h.visible_ne_nil hmode (by rw [h.visible_eq, horder, List.filter_nil])

/-- The end of collecting is told once at most, and not behind one that was told before. -/
theorem Consistent.run (h : x.Consistent) {events : List Event}
    (hevents : events.countP Event.isCollected + (if x.order = [] then 0 else 1) ≤ 1) :
    (x.run events).Consistent := by
  induction events generalizing x with
  | nil => exact h
  | cons event events ih =>
    rw [List.countP_cons] at hevents
    cases hevent : event.isCollected with
    | true =>
      have horder : x.order = [] := by
        by_contra hne
        simp [hevent, hne] at hevents
      refine ih (h.receive fun _ => h.mode_ne_detail horder) ?_
      rw [if_pos hevent, if_pos horder] at hevents
      split_ifs <;> omega
    | false =>
      refine ih (h.receive fun htold => absurd htold (by simp [hevent])) ?_
      rw [order_receive hevent]
      simpa [hevent] using hevents

-- ---------------------------------------------------------------------------
-- Rows
-- ---------------------------------------------------------------------------

theorem firstRow_le_selected (x : Explorer) : x.firstRow ≤ x.selected := by
  have hpos : 1 ≤ x.rowCount := le_max_right _ _
  unfold firstRow
  split_ifs <;> omega

theorem selected_lt_firstRow_add (x : Explorer) : x.selected < x.firstRow + x.rowCount := by
  have hpos : 1 ≤ x.rowCount := le_max_right _ _
  unfold firstRow
  split_ifs <;> omega

theorem selected_mem_rows {name : Bytes} (h : x.visible[x.selected]? = some name) :
    (name, x.selected) ∈ x.rows := by
  have hfirst := x.firstRow_le_selected
  have hlast := x.selected_lt_firstRow_add
  refine List.mem_of_getElem? (i := x.selected - x.firstRow) ?_
  rw [rows, List.getElem?_take_of_lt (by omega), List.getElem?_drop,
    Nat.add_sub_cancel' hfirst, List.getElem?_zipIdx, h]
  simp

theorem lower_ofChars (chars : List Char) :
    Text.lower (Text.ofChars chars) = Text.ofChars (chars.map Text.lowerChar) := by
  rw [Text.lower, Utf8.lossyChars_ofChars]

theorem isMatch_iff {query : List Char} {name : Bytes} :
    isMatch query name = true ↔
      Text.lower (Text.ofChars query) <:+: Text.lower name := by
  rw [isMatch, Bool.or_eq_true, Text.contains_iff, or_iff_right_iff_imp]
  intro hquery
  have hnil : query = [] := of_decide_eq_true hquery
  rw [hnil, lower_ofChars]
  exact List.nil_infix

theorem Consistent.exists_selected (h : x.Consistent) (hne : x.visible ≠ []) :
    ∃ name, x.visible[x.selected]? = some name := by
  have hle := h.selected_le
  have hlen := List.length_pos_of_ne_nil hne
  exact ⟨_, List.getElem?_eq_getElem (by omega)⟩

theorem run_browses (main : Bytes) (draw : Bytes → Bytes) (events : List Event)
    (h : events.countP Event.isCollected ≤ 1) :
    let x := run { main, draw } events
    (x.visible = x.order.filter fun name =>
      Text.lower (Text.ofChars x.query.text) <:+: Text.lower name) ∧
    (if x.visible = [] then x.selected = 0 else x.selected < x.visible.length) ∧
    (x.mode = .detail → ∃ name, x.visible[x.selected]? = some name ∧
      draw name ∈ x.detailLines) ∧
    (x.mode = .browse → x.visible ≠ [] → ∃ name, x.visible[x.selected]? = some name ∧
      x.press .enter = ({ x with mode := .detail }, .describe name)) ∧
    x.rows.length ≤ max (x.height - 8) 1 ∧
    ∀ name, x.visible[x.selected]? = some name →
      (name, x.selected) ∈ x.rows ∧ x.rowLine (name, x.selected) ∈ x.listLines := by
  have hx : (run { main, draw } events).Consistent := (consistent_initial main draw).run h
  have hdraw : (run { main, draw } events).draw = draw := draw_run _ _
  revert hx hdraw
  generalize run { main, draw } events = x
  rintro hx rfl
  refine ⟨?_, ?_, fun hmode => ?_, fun hmode hne => ?_, List.length_take_le _ _,
    fun name hname => ?_⟩
  · rw [hx.visible_eq]
    exact List.filter_congr fun name _ => by rw [Bool.eq_iff_iff, isMatch_iff, decide_eq_true_iff]
  · have hle := hx.selected_le
    split_ifs with hnil
    · rw [hnil] at hle
      exact Nat.le_zero.mp hle
    · have hlen := List.length_pos_of_ne_nil hnil
      omega
  · obtain ⟨name, hname⟩ := hx.exists_selected (hx.visible_ne_nil hmode)
    exact ⟨name, hname, by simp [detailLines, hname]⟩
  · obtain ⟨name, hname⟩ := hx.exists_selected hne
    refine ⟨name, hname, ?_⟩
    simp [press, pressEditing, hmode, pressBrowse, hname]
  · have hrow := selected_mem_rows hname
    refine ⟨hrow, ?_⟩
    rw [listLines]
    exact List.mem_append_left _ (List.mem_append_left _ (List.mem_map_of_mem hrow))

def needyGraph : Graph :=
  (Graph.empty.addEdge (text "App") (text "Base") .hard).addEdge (text "App") (text "Tab") .soft

/-- The filter is opened and filled before the classes are there; then the window shrinks to one
row, and the details of the second match are asked for. -/
def filteredEarly : List Event :=
  let found : Result ResolvedClass := .error (.notFound .load (text "class") (text "Tab"))
  [.key (.typed ['/']) {} found, .key (.typed ['B']) { before := ['B'] } found,
    .collected (.ok needyGraph), .key .enter {} found, .resized 9, .key .down {} found,
    .key .enter {} found]

theorem run_browses_filteredEarly :
    let x := run { main := text "App" } filteredEarly
    filteredEarly.countP Event.isCollected ≤ 1 ∧ x.mode = .detail ∧
      x.order = [text "Base", text "App", text "Tab"] ∧
      x.visible = [text "Base", text "Tab"] ∧ x.selected = 1 ∧
      Text.block (text "Tab") ∈ x.detailLines ∧ (text "Tab", 1) ∈ x.rows ∧ x.rows.length ≤ 1 := by
  have hcount : filteredEarly.countP Event.isCollected ≤ 1 := by decide
  obtain ⟨-, -, hdetail, -, hrows, hdrawn⟩ :=
    run_browses (text "App") Text.block filteredEarly hcount
  have hmode : (run { main := text "App" } filteredEarly).mode = .detail := by decide +kernel
  have hselected : (run { main := text "App" } filteredEarly).selected = 1 := by decide +kernel
  have hvisible : (run { main := text "App" } filteredEarly).visible =
      [text "Base", text "Tab"] := by decide +kernel
  have hheight : (run { main := text "App" } filteredEarly).height = 9 := by decide +kernel
  obtain ⟨name, hname, hshown⟩ := hdetail hmode
  have hrow := (hdrawn name hname).1
  rw [hvisible, hselected] at hname
  obtain rfl : text "Tab" = name := Option.some.inj hname
  rw [hselected] at hrow
  rw [hheight] at hrows
  exact ⟨hcount, hmode, by decide +kernel, hvisible, hselected, hshown, hrow, hrows⟩

end ClassHeader.Explorer
