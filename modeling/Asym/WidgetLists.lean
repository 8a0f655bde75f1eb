import Asym.Graphics
import Asym.IntrusiveLists
import Asym.OrderedLists
import Asym.Runs

/-!
# The widgets of a window

`win_widget_new` places a widget before the first one with a larger id, and `win_widget` ends at
the first larger id. The former looks the id up with the latter, so that both are right together:
in every run the ids increase strictly along the list, the widgets in it are those that were
created and not freed, and a lookup finds the widget with an id if there is one.

Widget procedures and the rest of the program may do anything else than to create and free widgets
of the window. A call that runs out of memory writes through a null pointer and ends the run.
-/

namespace Asym.WidgetLists

open CircularLists IntrusiveLists OrderedLists Runs
open Graphics (Rect)

/-! ## The source -/

/-- `WMSG_BASE`. -/
def wmsgBase : UInt16 := (1 : UInt16) <<< 15

/-- `WMSG_INIT`. -/
def wmsgInit : UInt16 := wmsgBase + 0

/-- `WMSG_FREE`. -/
def wmsgFree : UInt16 := wmsgBase + 1

/-- `WMSG_REDRAW`. -/
def wmsgRedraw : UInt16 := wmsgBase + 2

/-- `msg_t`. -/
structure Msg where
  time : UInt64
  type : UInt16
  data : Fin 64 → UInt8

/-- `widget_t` without its entry, whose links are in the state. A window stands for the head of
its list of widgets, and an address of 0 is `none`. -/
structure Widget (Node Procedure : Type) where
  id : UInt16
  procedure : Procedure
  rect : Rect
  window : Node
  private_ : Option Node
  messages : Fin 8 → Msg
  writeIndex : Fin 8
  readIndex : Fin 8
  name : List UInt8

/-- The links and the widgets in memory, the blocks that hold the widgets of the window, and
everything else that a program has. -/
structure State (Node Procedure World : Type) where
  links : Links Node
  widgets : Node → Widget Node Procedure
  live : List Node
  world : World

variable {Node Procedure World : Type} [DecidableEq Node]

/-- What widget procedures do, with a widget, its window and a message. -/
abbrev Procedures (Node Procedure World : Type) :=
  Procedure → Node → Node → Msg → State Node Procedure World → State Node Procedure World

/-- The arguments of `win_widget_new` besides the window. -/
structure Request (Procedure : Type) where
  procedure : Procedure
  name : List UInt8
  rect : Rect
  id : UInt16

/-- What `win_widget_new` gets from the functions that it calls: the block for the widget, whether
there is one for the name, and the uptime. -/
structure Services (Node : Type) where
  widget : Option Node
  name : Bool
  upTime : UInt64

/-- What a call leads to. -/
inductive Outcome (Node Procedure World : Type) where
  | faulted
  | returned (result : Option Node) (state : State Node Procedure World)

/-- `win_widget`. No result means too little fuel. -/
def winWidget (fuel : Nat) (state : State Node Procedure World) (window : Node) (id : UInt16) : Option (Option Node) :=
  (walkUntil state.links.next window (fun widget =>
    if (state.widgets widget).id = id then some (some widget)
    else if (state.widgets widget).id > id then some none
    else none) fuel (state.links.next window)).map Option.join

/-- `win_widget_dispatch`. -/
def winWidgetDispatch (call : Procedures Node Procedure World) (state : State Node Procedure World) (widget : Node)
    (msg : Msg) : State Node Procedure World :=
  call (state.widgets widget).procedure widget (state.widgets widget).window msg state

/-- `win_widget_send` of at most 64 bytes. -/
def winWidgetSend (state : State Node Procedure World) (widget : Node) (type : UInt16) (data : List UInt8) :
    State Node Procedure World :=
  let record := state.widgets widget
  let slot := record.messages record.writeIndex
  let sent := { slot with type := type, data := fun index => data[index.val]?.getD (slot.data index) }
  { state with widgets := Function.update state.widgets widget { record with
      messages := Function.update record.messages record.writeIndex sent
      writeIndex := record.writeIndex + 1 } }

/-- The new widget in `win_widget_new` before its procedure is called. -/
def initialise (state : State Node Procedure World) (window : Node) (request : Request Procedure) (widget : Node) :
    State Node Procedure World :=
  { state with
    links := listEntryInit state.links widget
    widgets := Function.update state.widgets widget { state.widgets widget with
      id := request.id
      procedure := request.procedure
      rect := request.rect
      window := window
      private_ := none
      readIndex := 0
      writeIndex := 0
      name := request.name }
    live := widget :: state.live }

/-- `win_widget_new` until the new widget is put into the list. -/
def prepare (call : Procedures Node Procedure World) (state : State Node Procedure World) (window : Node)
    (request : Request Procedure) (widget : Node) (upTime : UInt64) : State Node Procedure World :=
  let state := initialise state window request widget
  let state := winWidgetDispatch call state widget { time := upTime, type := wmsgInit, data := fun _ => 0 }
  winWidgetSend state widget wmsgRedraw []

/-- The end of `win_widget_new`, where the new widget is put into the list. -/
def insert (fuel : Nat) (state : State Node Procedure World) (window widget : Node) :
    Option (State Node Procedure World) :=
  (walkUntil state.links.next window (fun other =>
    if (state.widgets other).id > (state.widgets widget).id then some other else none) fuel
      (state.links.next window)).map fun
    | some other => { state with links := listPrepend state.links other widget }
    | none => { state with links := listPush state.links window widget }

/-- `win_widget_new`. No result means too little fuel. -/
def winWidgetNew (call : Procedures Node Procedure World) (fuel : Nat) (state : State Node Procedure World)
    (window : Node) (request : Request Procedure) (services : Services Node) :
    Option (Outcome Node Procedure World) :=
  (winWidget fuel state window request.id).bind fun found =>
    if found.isSome then some (.returned none state)
    else match services.widget, services.name with
      -- `list_entry_init` or `strcpy` would write through the null pointer.
      | none, _ | some _, false => some .faulted
      | some widget, true =>
        (insert fuel (prepare call state window request widget services.upTime) window widget).map
          (.returned (some widget))

/-- `win_widget_free`. -/
def winWidgetFree (call : Procedures Node Procedure World) (state : State Node Procedure World) (widget : Node)
    (upTime : UInt64) : State Node Procedure World :=
  let state := winWidgetDispatch call state widget { time := upTime, type := wmsgFree, data := fun _ => 0 }
  { state with links := listRemove state.links widget, live := state.live.erase widget }

/-! ## Runs -/

/-- The id of a widget, as a number. -/
def idOf (state : State Node Procedure World) (widget : Node) : Nat := (state.widgets widget).id.toNat

/-- No widget of the window is created or freed, or loses its place or its id. -/
structure Kept (window : Node) (before after : State Node Procedure World) : Prop where
  live : after.live = before.live
  links : ∀ node ∈ window :: before.live,
    after.links.next node = before.links.next node ∧ after.links.prev node = before.links.prev node
  id : ∀ widget ∈ before.live, (after.widgets widget).id = (before.widgets widget).id

/-- The window is new. -/
def Initial (window : Node) (state : State Node Procedure World) : Prop :=
  state.live = [] ∧ ∃ links, state.links = listEntryInit links window

/-- The block for a new widget is not in use. -/
def Services.Fresh (services : Services Node) (window : Node) (state : State Node Procedure World) : Prop :=
  ∀ widget, services.widget = some widget → widget ∉ window :: state.live

/-- A call of `win_widget_new` that returns, one of `win_widget_free`, or anything else. -/
inductive Step (call : Procedures Node Procedure World) (window : Node) :
    State Node Procedure World → State Node Procedure World → Prop where
  | create {fuel : Nat} {state after : State Node Procedure World} {request : Request Procedure}
      {services : Services Node} {result : Option Node} (fresh : services.Fresh window state)
      (made : winWidgetNew call fuel state window request services = some (.returned result after)) :
      Step call window state after
  | free {state : State Node Procedure World} {widget : Node} {upTime : UInt64} (there : widget ∈ state.live) :
      Step call window state (winWidgetFree call state widget upTime)
  | other {state after : State Node Procedure World} (kept : Kept window state after) : Step call window state after

/-- Widget procedures neither create nor free widgets of the window. -/
def Bystanding (call : Procedures Node Procedure World) (window : Node) : Prop :=
  ∀ procedure widget given msg state, widget ∈ state.live → Kept window state (call procedure widget given msg state)

/-! ## The list -/

/-- The widgets in the list, with ids that increase strictly. -/
structure Sorted (window : Node) (state : State Node Procedure World) (sequence : List Node) : Prop where
  circular : Circular state.links window sequence
  increasing : Increasing (idOf state) sequence

variable {call : Procedures Node Procedure World} {window widget : Node} {state after : State Node Procedure World}
  {sequence : List Node} {fuel : Nat} {request : Request Procedure} {services : Services Node} {upTime : UInt64}

omit [DecidableEq Node] in
/-- The list stays while neither its links nor its ids change. -/
theorem Sorted.congr (sorted : Sorted window state sequence)
    (links : ∀ node ∈ window :: sequence,
      after.links.next node = state.links.next node ∧ after.links.prev node = state.links.prev node)
    (id : ∀ other ∈ sequence, (after.widgets other).id = (state.widgets other).id) :
    Sorted window after sequence :=
  ⟨sorted.circular.congr links, sorted.increasing.congr fun other member => congrArg UInt16.toNat (id other member)⟩

omit [DecidableEq Node] in
/-- What keeps the widgets of the window keeps their list. -/
theorem Sorted.kept (sorted : Sorted window state sequence) (inside : sequence ⊆ state.live)
    (kept : Kept window state after) : Sorted window after sequence :=
  sorted.congr (fun node member => kept.links node (List.cons_subset_cons window inside member))
    fun other member => kept.id other (inside member)

/-- A lookup is a search for the id. -/
theorem Sorted.winWidget (sorted : Sorted window state sequence) (enough : sequence.length < fuel) (id : UInt16) :
    winWidget fuel state window id = some (search (idOf state) id.toNat sequence) := by
  rw [WidgetLists.winWidget, walkUntil_of_walk (sorted.circular.walk_next enough), Option.map_some, search]
  refine congrArg (fun body => some (List.findSome? body sequence).join) (funext fun other => ?_)
  rw [probe]
  exact if_congr UInt16.toNat_inj.symm rfl (if_congr UInt16.lt_iff_toNat_lt rfl rfl)

/-- A widget put before the first one with a larger id, or at the end, is placed by its id. -/
theorem placedBefore_larger (key : Node → Nat) (absent : window ∉ sequence) :
    placedBefore ((sequence.find? fun other => key widget < key other).getD window) widget window sequence =
      place key widget sequence := by
  cases found : sequence.find? fun other => decide (key widget < key other) with
  | none => rw [Option.getD_none, placedBefore, if_pos rfl, place_last found]
  | some other =>
    obtain ⟨front, back, split, notBefore, placed⟩ := place_before found
    have differs : window ≠ other := by
      rintro rfl
      exact absent (split ▸ List.mem_append_right front List.mem_cons_self)
    rw [Option.getD_some, placedBefore, if_neg differs, placed, split, insertBefore_append notBefore]

/-- A widget with a new id is put into the list. -/
theorem Sorted.insert (sorted : Sorted window state sequence) (enough : sequence.length < fuel)
    (apart : widget ∉ window :: sequence) (new : ∀ other ∈ sequence, idOf state other ≠ idOf state widget) :
    ∃ after, insert fuel state window widget = some after ∧ after.live = state.live ∧
      after.widgets = state.widgets ∧ Sorted window after (place (idOf state) widget sequence) := by
  have absent := (List.nodup_cons.mp sorted.circular.nodup).1
  set larger := sequence.find? fun other => idOf state widget < idOf state other with found
  have stops : (sequence.findSome? fun other =>
      if (state.widgets other).id > (state.widgets widget).id then some other else none) = larger := by
    rw [found, List.find?_eq_findSome?_guard]
    refine congrArg (List.findSome? · sequence) (funext fun other => ?_)
    rw [Option.guard]
    exact if_congr (UInt16.lt_iff_toNat_lt.trans decide_eq_true_iff.symm) rfl rfl
  refine ⟨{ state with links := listPrepend state.links (larger.getD window) widget }, ?_, rfl, rfl, ?_⟩
  · rw [WidgetLists.insert, walkUntil_of_walk (sorted.circular.walk_next enough), stops, Option.map_some]
    cases larger with
    | none => rfl
    | some other => rfl
  · have there : larger.getD window ∈ window :: sequence := by
      cases here : larger with
      | none => exact List.mem_cons_self
      | some other => exact List.mem_cons_of_mem _ (List.mem_of_find?_eq_some (found.symm.trans here))
    refine ⟨?_, sorted.increasing.place new⟩
    rw [← placedBefore_larger (idOf state) absent, ← found]
    exact sorted.circular.insert_before there apart

/-- A widget is taken out of the list. -/
theorem Sorted.remove (sorted : Sorted window state sequence) (there : widget ∈ sequence) (live : List Node) :
    Sorted window { state with links := listRemove state.links widget, live := live } (sequence.erase widget) where
  circular := by
    rw [listRemove_eq]
    exact sorted.circular.remove there
  increasing := sorted.increasing.sublist List.erase_sublist

/-! ## Calls -/

/-- The list holds the widgets that were created and not freed. -/
structure Listed (window : Node) (state : State Node Procedure World) (sequence : List Node) : Prop
    extends Sorted window state sequence where
  live : sequence.Perm state.live

/-- A widget with an id is there. -/
def Present (state : State Node Procedure World) (id : UInt16) : Prop :=
  ∃ widget ∈ state.live, (state.widgets widget).id = id

/-- A new widget is put somewhere into a list. The others keep their order and their ids, and the
insertion writes to none of them. -/
structure Inserts (call : Procedures Node Procedure World) (window : Node) (state : State Node Procedure World)
    (sequence : List Node) (request : Request Procedure) (upTime : UInt64) (widget : Node)
    (after : State Node Procedure World) : Prop where
  place : ∃ front back, sequence = front ++ back ∧ Listed window after (front ++ widget :: back)
  live : after.live = widget :: state.live
  id : (after.widgets widget).id = request.id
  others : ∀ other ∈ state.live, (after.widgets other).id = (state.widgets other).id
  widgets : after.widgets = (prepare call state window request widget upTime).widgets

omit [DecidableEq Node] in
/-- What two things keep in turn. -/
theorem Kept.trans {first second third : State Node Procedure World} (before : Kept window first second)
    (behind : Kept window second third) : Kept window first third where
  live := behind.live.trans before.live
  links node member := by
    obtain ⟨next, prev⟩ := behind.links node (before.live ▸ member)
    exact ⟨next.trans (before.links node member).1, prev.trans (before.links node member).2⟩
  id widget member := (behind.id widget (before.live ▸ member)).trans (before.id widget member)

/-- A change of a widget that keeps its id. -/
theorem kept_update (window : Node) {record : Widget Node Procedure} (same : record.id = (state.widgets widget).id) :
    Kept window state { state with widgets := Function.update state.widgets widget record } where
  live := rfl
  links _ _ := ⟨rfl, rfl⟩
  id other _ := by
    dsimp only
    by_cases here : other = widget
    · rw [here, Function.update_self, same]
    · rw [Function.update_of_ne here]

/-- The new widget is apart from the list until it is put there. -/
theorem Sorted.prepared (sorted : Sorted window state sequence) (request : Request Procedure) (upTime : UInt64)
    (bystanding : Bystanding call window) (inside : sequence ⊆ state.live)
    (fresh : widget ∉ window :: state.live) :
    Sorted window (prepare call state window request widget upTime) sequence ∧
      (prepare call state window request widget upTime).live = widget :: state.live ∧
      ((prepare call state window request widget upTime).widgets widget).id = request.id ∧
      ∀ other ∈ state.live,
        ((prepare call state window request widget upTime).widgets other).id = (state.widgets other).id := by
  have kept : Kept window (initialise state window request widget) (prepare call state window request widget upTime) :=
    (bystanding _ _ _ _ _ List.mem_cons_self).trans (kept_update window rfl)
  have others : ∀ other ∈ state.live,
      ((initialise state window request widget).widgets other).id = (state.widgets other).id := by
    intro other member
    have differs : other ≠ widget := fun same => fresh (same ▸ List.mem_cons_of_mem _ member)
    dsimp only [initialise]
    rw [Function.update_of_ne differs]
  have apart : widget ∉ window :: sequence := fun member => fresh (List.cons_subset_cons window inside member)
  have initialised : Sorted window (initialise state window request widget) sequence :=
    ⟨sorted.circular.self_apart apart,
      sorted.increasing.congr fun other member => congrArg UInt16.toNat (others other (inside member))⟩
  refine ⟨initialised.kept (fun other member => List.mem_cons_of_mem _ (inside member)) kept, kept.live, ?_,
    fun other member => (kept.id other (List.mem_cons_of_mem _ member)).trans (others other member)⟩
  rw [kept.id widget List.mem_cons_self]
  dsimp only [initialise]
  rw [Function.update_self]

omit [DecidableEq Node] in
/-- The search in the list is right about the widgets that are there. -/
theorem Listed.search (listed : Listed window state sequence) (id : UInt16) :
    search (idOf state) id.toNat sequence = some widget ↔ widget ∈ state.live ∧ (state.widgets widget).id = id := by
  rw [search_eq_some listed.increasing, listed.live.mem_iff, idOf, UInt16.toNat_inj]

/-- `win_widget` finds the widget with an id, if there is one. -/
theorem Listed.winWidget (listed : Listed window state sequence) (enough : state.live.length < fuel) (id : UInt16) :
    ∃ found, winWidget fuel state window id = some found ∧
      ∀ widget, found = some widget ↔ widget ∈ state.live ∧ (state.widgets widget).id = id :=
  ⟨_, listed.toSorted.winWidget (listed.live.length_eq ▸ enough) id, fun _ => listed.search id⟩

/-- `win_widget_new` inserts a widget whose id is new, if it gets the memory. -/
theorem Listed.insert (listed : Listed window state sequence) (upTime : UInt64) (bystanding : Bystanding call window)
    (enough : state.live.length < fuel) (fresh : widget ∉ window :: state.live) (absent : ¬ Present state request.id) :
    ∃ after, insert fuel (prepare call state window request widget upTime) window widget = some after ∧
      Inserts call window state sequence request upTime widget after := by
  have inside : sequence ⊆ state.live := listed.live.subset
  obtain ⟨prepared, live, id, others⟩ := listed.toSorted.prepared request upTime bystanding inside fresh
  have new : ∀ other ∈ sequence, idOf (prepare call state window request widget upTime) other ≠
      idOf (prepare call state window request widget upTime) widget := by
    intro other member same
    rw [idOf, idOf, UInt16.toNat_inj, id, others other (inside member)] at same
    exact absent ⟨other, inside member, same⟩
  have apart : widget ∉ window :: sequence := fun member => fresh (List.cons_subset_cons window inside member)
  obtain ⟨after, made, afterLive, widgets, sorted⟩ :=
    prepared.insert (listed.live.length_eq ▸ enough) apart new
  obtain ⟨front, back, split, placed⟩ :=
    place_split (idOf (prepare call state window request widget upTime)) widget sequence
  have same : idOf after = idOf (prepare call state window request widget upTime) := by
    funext other
    rw [idOf, idOf, widgets]
  refine ⟨after, made, ⟨front, back, split, placed ▸ sorted, ?_⟩, afterLive.trans live, ?_, ?_, widgets⟩
  · rw [← placed, afterLive, live]
    exact (place_perm _ _ _).trans (listed.live.cons widget)
  · rw [widgets, id]
  · rw [widgets]
    exact others

/-- What a call of `win_widget_new` is to do: it returns `NULL` if a widget with the id is there, and
inserts a new one otherwise, if it gets the memory. -/
inductive Creates (call : Procedures Node Procedure World) (window : Node) (state : State Node Procedure World)
    (sequence : List Node) (request : Request Procedure) (services : Services Node) :
    Outcome Node Procedure World → Prop where
  | null (present : Present state request.id) :
      Creates call window state sequence request services (.returned none state)
  | faulted (absent : ¬ Present state request.id) (refused : services.widget = none ∨ services.name = false) :
      Creates call window state sequence request services .faulted
  | inserted {widget : Node} {after : State Node Procedure World} (absent : ¬ Present state request.id)
      (given : services.widget = some widget) (named : services.name = true)
      (inserts : Inserts call window state sequence request services.upTime widget after) :
      Creates call window state sequence request services (.returned (some widget) after)

/-- `win_widget_new`, with enough fuel. -/
theorem Listed.winWidgetNew (listed : Listed window state sequence) (request : Request Procedure)
    (bystanding : Bystanding call window) (enough : state.live.length < fuel) (fresh : services.Fresh window state) :
    ∃ outcome, winWidgetNew call fuel state window request services = some outcome ∧
      Creates call window state sequence request services outcome := by
  obtain ⟨found, looked, finds⟩ := listed.winWidget enough request.id
  rw [WidgetLists.winWidgetNew, looked, Option.bind_some]
  cases found with
  | some widget =>
    obtain ⟨there, same⟩ := (finds widget).mp rfl
    exact ⟨_, if_pos rfl, .null ⟨widget, there, same⟩⟩
  | none =>
    have absent : ¬ Present state request.id := fun ⟨widget, present⟩ => nomatch (finds widget).mpr present
    rw [if_neg (by simp)]
    cases given : services.widget with
    | none => exact ⟨_, rfl, .faulted absent (.inl given)⟩
    | some widget =>
      cases named : services.name with
      | false => exact ⟨_, rfl, .faulted absent (.inr named)⟩
      | true =>
        obtain ⟨after, made, inserts⟩ :=
          listed.insert services.upTime bystanding enough (fresh widget given) absent
        exact ⟨_, congrArg (Option.map _) made, .inserted absent given named inserts⟩

/-- `NULL` is returned exactly if a widget with the id is there. -/
theorem Creates.null_iff {outcome : Outcome Node Procedure World}
    (creates : Creates call window state sequence request services outcome) :
    (∃ after, outcome = .returned none after) ↔ Present state request.id := by
  cases creates with
  | null present => exact iff_of_true ⟨state, rfl⟩ present
  | faulted absent refused => exact iff_of_false (fun ⟨_, same⟩ => nomatch same) absent
  | inserted absent given named inserts => exact iff_of_false (fun ⟨_, same⟩ => nomatch same) absent

/-- `win_widget_free` takes the widget out of the list. -/
theorem Listed.free (listed : Listed window state sequence) (bystanding : Bystanding call window)
    (there : widget ∈ state.live) :
    Listed window (winWidgetFree call state widget upTime) (sequence.erase widget) := by
  have kept : Kept window state
      (winWidgetDispatch call state widget { time := upTime, type := wmsgFree, data := fun _ => 0 }) :=
    bystanding _ _ _ _ _ there
  refine ⟨(listed.toSorted.kept listed.live.subset kept).remove (listed.live.mem_iff.mpr there) _, ?_⟩
  rw [winWidgetFree, kept.live]
  exact listed.live.erase widget

/-- More fuel does not change what `win_widget_new` does. -/
theorem winWidgetNew_mono {more : Nat} {outcome : Outcome Node Procedure World}
    (made : winWidgetNew call fuel state window request services = some outcome) (enough : fuel ≤ more) :
    winWidgetNew call more state window request services = some outcome := by
  obtain ⟨found, looked, rest⟩ := Option.bind_eq_some_iff.mp made
  obtain ⟨result, walked, same⟩ := Option.map_eq_some_iff.mp looked
  have again : winWidget more state window request.id = some found := by
    rw [winWidget, walkUntil_mono walked enough, Option.map_some, same]
  rw [winWidgetNew, again, Option.bind_some]
  split_ifs at rest ⊢ with present
  · exact rest
  · cases given : services.widget with
    | none => rwa [given] at rest
    | some widget =>
      cases named : services.name with
      | false => rwa [given, named] at rest
      | true =>
        rw [given, named] at rest
        obtain ⟨after, inserted, returned⟩ := Option.map_eq_some_iff.mp rest
        obtain ⟨place, searched, placed⟩ := Option.map_eq_some_iff.mp inserted
        have put : insert more (prepare call state window request widget services.upTime) window widget =
            some after := by
          rw [insert, walkUntil_mono searched enough, Option.map_some, placed]
        exact (congrArg (Option.map _) put).trans (congrArg some returned)

/-! ## Reachable states -/

/-- A new window has no widgets. -/
theorem listed_initial (initial : Initial window state) : Listed window state [] := by
  obtain ⟨live, links, same⟩ := initial
  refine ⟨⟨?_, List.Pairwise.nil⟩, live ▸ List.Perm.nil⟩
  rw [same]
  exact circular_self links window

/-- Every step leaves a list of the widgets that are there then. -/
theorem Listed.step (listed : Listed window state sequence) (bystanding : Bystanding call window)
    (taken : Step call window state after) : ∃ sequence, Listed window after sequence := by
  cases taken with
  | @create fuel _ _ request services result fresh made =>
    obtain ⟨outcome, again, creates⟩ := listed.winWidgetNew request bystanding
      (Nat.lt_of_lt_of_le (Nat.lt_succ_self _) (Nat.le_max_right fuel _)) fresh
    rw [winWidgetNew_mono made (Nat.le_max_left fuel _), Option.some.injEq] at again
    subst again
    cases creates with
    | null present => exact ⟨sequence, listed⟩
    | inserted absent given named inserts =>
      obtain ⟨front, back, _, placed⟩ := inserts.place
      exact ⟨_, placed⟩
  | free there => exact ⟨_, listed.free bystanding there⟩
  | other kept => exact ⟨sequence, listed.toSorted.kept listed.live.subset kept, kept.live ▸ listed.live⟩

/-- In every reachable state the widgets that are there are in the list. -/
theorem reachable_listed (bystanding : Bystanding call window)
    (reached : Reachable (Initial window) (Step call window) state) : ∃ sequence, Listed window state sequence := by
  refine @reachable_invariant _ _ _ (fun state => ∃ sequence, Listed window state sequence)
    (fun start initial => ?_) (fun before after holds taken => ?_) _ reached
  · exact ⟨[], listed_initial initial⟩
  · obtain ⟨_, listed⟩ := holds
    exact listed.step bystanding taken

/-- After every run the ids increase strictly along the list of the widgets that were created and
not freed. A lookup finds the widget with an id if there is one. `win_widget_new` returns `NULL`
exactly if there is one, and otherwise inserts the new widget and leaves the others; and
`win_widget_free` takes out only the widget that it frees. -/
theorem widgets_exact (bystanding : Bystanding call window)
    (reached : Reachable (Initial window) (Step call window) state) (enough : state.live.length < fuel) :
    ∃ sequence, Listed window state sequence ∧ listForEach fuel state.links window = some sequence ∧
      (∀ id, ∃ found, winWidget fuel state window id = some found ∧
        ∀ widget, found = some widget ↔ widget ∈ state.live ∧ (state.widgets widget).id = id) ∧
      (∀ (request : Request Procedure) (services : Services Node), services.Fresh window state →
        ∃ outcome, winWidgetNew call fuel state window request services = some outcome ∧
          ((∃ after, outcome = .returned none after) ↔ Present state request.id) ∧
          Creates call window state sequence request services outcome) ∧
      ∀ widget ∈ state.live, ∀ upTime,
        Listed window (winWidgetFree call state widget upTime) (sequence.erase widget) ∧
          (winWidgetFree call state widget upTime).live = state.live.erase widget := by
  obtain ⟨sequence, listed⟩ := reachable_listed bystanding reached
  refine ⟨sequence, listed, listed.circular.walk_next (listed.live.length_eq ▸ enough), listed.winWidget enough,
    fun request services fresh => ?_, fun widget there upTime => ⟨listed.free bystanding there, ?_⟩⟩
  · obtain ⟨outcome, made, creates⟩ := listed.winWidgetNew request bystanding enough fresh
    exact ⟨outcome, made, creates.null_iff, creates⟩
  · exact congrArg (List.erase · widget) (bystanding _ _ _ _ _ there).live

/-- A procedure that keeps the address 100 as its data when it is initialised. -/
def keepData : Procedures Nat Unit Unit := fun _ widget _ msg state =>
  if msg.type = wmsgInit then
    { state with widgets := Function.update state.widgets widget { state.widgets widget with private_ := some 100 } }
  else state

/-- A new window at 0. -/
def emptyWindow : State Nat Unit Unit where
  links := listEntryInit ⟨id, id⟩ 0
  widgets _ := ⟨0, (), ⟨0, 0, 0, 0⟩, 0, none, fun _ => ⟨0, 0, fun _ => 0⟩, 0, 0, []⟩
  live := []
  world := ()

/-- The state after a widget with an id is created in a block. -/
def created (state : State Nat Unit Unit) (widget : Nat) (id : UInt16) : State Nat Unit Unit :=
  match winWidgetNew keepData 4 state 0 ⟨(), [66], ⟨0, 0, 8, 8⟩, id⟩ ⟨some widget, true, 7⟩ with
  | some (.returned _ after) => after
  | _ => state

/-- Widgets with the ids 5, 3 and 4 at 1, 2 and 3. -/
def threeWidgets : State Nat Unit Unit := created (created (created emptyWindow 1 5) 2 3) 3 4

/-- The data of a widget is neither its place nor its id. -/
theorem keepData_bystanding : Bystanding keepData 0 := by
  intro procedure widget given msg state _
  rw [keepData]
  split_ifs
  · exact kept_update 0 rfl
  · exact ⟨rfl, fun _ _ => ⟨rfl, rfl⟩, fun _ _ => rfl⟩

/-- A creation in a block that is not in use is a step. -/
theorem created_step {state : State Nat Unit Unit} {widget : Nat} (id : UInt16) (fresh : widget ∉ 0 :: state.live) :
    Step keepData 0 state (created state widget id) := by
  rw [created]
  split
  · next made =>
    refine .create (fun given same => ?_) made
    exact Option.some.inj same ▸ fresh
  · exact .other ⟨rfl, fun _ _ => ⟨rfl, rfl⟩, fun _ _ => rfl⟩

/-- Three creations are a run. -/
theorem threeWidgets_reached : Reachable (Initial 0) (Step keepData 0) threeWidgets := by
  have start : Reachable (Initial 0) (Step keepData 0) emptyWindow := ⟨emptyWindow, ⟨rfl, _, rfl⟩, .refl⟩
  exact ((start.step (created_step 5 (by decide))).step (created_step 3 (by decide))).step (created_step 4 (by decide))

/-- The three widgets are listed by their ids, and so they are found. -/
theorem threeWidgets_exact : ∃ sequence, Listed 0 threeWidgets sequence ∧
    listForEach 4 threeWidgets.links 0 = some sequence ∧ ∀ id, ∃ found, winWidget 4 threeWidgets 0 id = some found ∧
      ∀ widget, found = some widget ↔ widget ∈ threeWidgets.live ∧ (threeWidgets.widgets widget).id = id := by
  obtain ⟨sequence, listed, visited, looked, _⟩ :=
    widgets_exact keepData_bystanding threeWidgets_reached (by decide : threeWidgets.live.length < 4)
  exact ⟨sequence, listed, visited, looked⟩

example : listForEach 4 threeWidgets.links 0 = some [2, 3, 1] := by decide

end Asym.WidgetLists
