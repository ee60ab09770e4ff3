/-
The chronicle of a host: all that is seen from outside while one thread uses it, in order, each deed
with the host right after it. Main statement: the generation is always that of the published model,
the revision counts the edits that report a change, the generation counts the publications, and a
listener is called with the published model once for each generation after the one it subscribed in,
in order, however its own edits and requests and those of others nest.

A deed changes little, and `View` says what: the model, the counters, and how many listeners have
been called with the model. A publication or a subscription finds every listener called, and the next
one to call is the first that is not. All statements follow from this along the log.
-/
import TypeAtlas.Proofs.Runs

namespace TypeAtlas.Host

/-! ## Logs -/

/-- Something that is seen from outside. -/
inductive Deed where
  | replied (reply : Reply)
  | subscribed (listener : Nat)
  | published (model : Model)
  /-- A listener is called. -/
  | told (listener : Nat) (model : Model)

/-- A deed together with the host right after it; a call to a listener with the host that the
listener finds. -/
structure Entry where
  deed : Deed
  host : Host

def Moment.entry (m : Moment) : Entry := ⟨.replied m.reply, m.host⟩

/-- The entries of an event that found the host as it is. -/
def Event.log (h : Host) : Event → List Entry
  | .arrived _ moments => moments.map Moment.entry
  | .announced listener m moments => ⟨.told listener m, h⟩ :: moments.map Moment.entry

def announceLog (m : Model) (h : Host) : List Nat → List Entry
  | [] => []
  | listener :: more =>
    (h.announceTo m listener).1.log h ++ (h.announceTo m listener).2.announceLog m more

namespace Run

def arriveLog (r : Run) : List Entry :=
  match r.arrivals with
  | [] => []
  | actions :: _ => (r.host.actAll actions).1.map Moment.entry

def finishLog (r : Run) (m : Model) : List Entry :=
  match r.host.publish m with
  | .error _ => []
  | .ok host => ⟨.published m, host⟩ :: host.announceLog m (List.range host.listeners.length)

def passLog (r : Run) : List Entry :=
  let host := r.host.beginPass
  if host.covers host.snapshot then []
  else { r with host }.arriveLog ++ ({ r with host }.arrive).finishLog (host.candidate host.snapshot)

def passesLog : Nat → Run → List Entry
  | 0, _ => []
  | fuel + 1, r => r.passLog ++ if r.pass.host.pending then passesLog fuel r.pass else []

end Run

/-- What happens during a rebuild. -/
def rebuildLog (h : Host) (arrivals : List (List Action)) : List Entry :=
  if h.building then []
  else (Run.start h arrivals).passesLog ((Run.start h arrivals).listsLeft + 1)

/-! ## Sessions -/

/-- A call by the thread that uses a host. -/
inductive Call where
  | edit (e : Edit)
  | registerModule (name : String) (custom : Bool)
  | fileId (path : String)
  | subscribe (script : Script)
  | rebuild (arrivals : List (List Action))

/-- The host after a call. -/
def call (h : Host) : Call → Host
  | .edit e => (h.act (.edit e)).host
  | .registerModule name custom => (h.act (.registerModule name custom)).host
  | .fileId path => (h.act (.fileId path)).host
  | .subscribe script => (h.subscribe script).2
  | .rebuild arrivals => (h.rebuild arrivals).host

def callLog (h : Host) : Call → List Entry
  | .edit e => [(h.act (.edit e)).entry]
  | .registerModule name custom => [(h.act (.registerModule name custom)).entry]
  | .fileId path => [(h.act (.fileId path)).entry]
  | .subscribe script => [⟨.subscribed (h.subscribe script).1, (h.subscribe script).2⟩]
  | .rebuild arrivals =>
    h.rebuildLog arrivals ++
      [⟨.replied (.outcome (h.rebuild arrivals).outcome), (h.rebuild arrivals).host⟩]

/-- The host after a session. -/
def session (h : Host) : List Call → Host
  | [] => h
  | c :: cs => (h.call c).session cs

/-- All that happens in a session. -/
def chronicle (h : Host) : List Call → List Entry
  | [] => []
  | c :: cs => h.callLog c ++ (h.call c).chronicle cs

/-! ## Reading logs -/

/-- An edit that reports a change. -/
def Deed.isChange : Deed → Bool
  | .replied (.edited changed _) => changed != 0
  | _ => false

def Deed.subscribed? : Deed → Option Nat
  | .subscribed i => some i
  | _ => none

def Deed.model? : Deed → Option Model
  | .published m => some m
  | _ => none

/-- The generation that a listener is called with. -/
def Deed.heardBy? (listener : Nat) : Deed → Option Nat
  | .told i m => if i = listener then some m.generation else none
  | _ => none

/-- The number of edits that report a change. -/
def changes (log : List Entry) : Nat := log.countP fun e => e.deed.isChange

/-- The listeners that subscribed. -/
def subscriptions (log : List Entry) : List Nat := log.filterMap fun e => e.deed.subscribed?

/-- The published models. -/
def publications (log : List Entry) : List Model := log.filterMap fun e => e.deed.model?

/-- The generations that a listener is called with. -/
def heard (listener : Nat) (log : List Entry) : List Nat :=
  log.filterMap fun e => e.deed.heardBy? listener

/-! ## Views -/

/-- What deeds change: the published model, the counters, the number of listeners, and how many of
them have been called with the model. -/
structure View where
  model : Model
  generation : Nat
  revision : Nat
  listeners : Nat
  told : Nat

def view (h : Host) (told : Nat) : View :=
  ⟨h.model, h.generation, h.revision, h.listeners.length, told⟩

namespace View

/-- The view after a deed. -/
def after (v : View) (d : Deed) : View :=
  match d with
  | .replied _ => { v with revision := v.revision + d.isChange.toNat }
  | .subscribed _ => { v with listeners := v.listeners + 1, told := v.told + 1 }
  | .published m => { v with model := m, generation := m.generation, told := 0 }
  | .told .. => { v with told := v.told + 1 }

/-- A deed that can come next. -/
def Allows (v : View) : Deed → Prop
  | .replied _ => True
  | .subscribed i => i = v.listeners ∧ v.told = v.listeners
  | .published m => m.generation = v.generation + 1 ∧ v.told = v.listeners
  | .told i m => i = v.told ∧ v.told < v.listeners ∧ m = v.model

end View

/-- A log leads from a view to another: each deed can come next, and the host next to it is as the
deed leaves it. -/
inductive Path : View → List Entry → View → Prop
  | nil {v : View} : Path v [] v
  | cons {v w : View} {e : Entry} {log : List Entry} (allowed : v.Allows e.deed)
      (shown : e.host.view (v.after e.deed).told = v.after e.deed)
      (rest : Path (v.after e.deed) log w) : Path v (e :: log) w

namespace Path

variable {u v w : View} {log log' : List Entry}

theorem append (h : Path u log v) (h' : Path v log' w) : Path u (log ++ log') w := by
  induction h with
  | nil => exact h'
  | cons allowed shown _ ih => exact .cons allowed shown (ih h')

theorem split : ∀ {log : List Entry} {u : View}, Path u (log ++ log') w →
    ∃ v, Path u log v ∧ Path v log' w
  | [], u, h => ⟨u, .nil, h⟩
  | _ :: _, _, .cons allowed shown rest => by
    obtain ⟨v, h, h'⟩ := split rest
    exact ⟨v, .cons allowed shown h, h'⟩

theorem single {e : Entry} (allowed : v.Allows e.deed)
    (shown : e.host.view (v.after e.deed).told = v.after e.deed) : Path v [e] (v.after e.deed) :=
  .cons allowed shown .nil

end Path

/-! ## Logs are paths -/

theorem view_act (h : Host) (a : Action) (told : Nat) :
    (h.act a).host.view told = (h.view told).after (h.act a).entry.deed := by
  cases a with
  | edit e =>
    simp only [act, edit, Moment.entry, View.after, Deed.isChange]
    split
    · rename_i hchanged
      simp [hchanged, view]
    · rename_i hchanged
      simp [bne_iff_ne.2 hchanged, view, noteChange]
  | _ => rfl

theorem path_actAll (as : List Action) (h : Host) (told : Nat) :
    Path (h.view told) ((h.actAll as).1.map Moment.entry) ((h.actAll as).2.view told) := by
  induction as generalizing h with
  | nil => exact .nil
  | cons a as ih =>
    have hview := view_act h a told
    refine .cons (e := (h.act a).entry) trivial ?_ ?_
    · rw [← hview]
      rfl
    · rw [← hview]
      exact ih _

/-- A listener is called with the published model, and acts. -/
theorem path_announceTo {h : Host} {listener : Nat} (hlt : listener < h.listeners.length) :
    Path (h.view listener) ((h.announceTo h.model listener).1.log h)
      ((h.announceTo h.model listener).2.view (listener + 1)) := by
  refine .cons ⟨rfl, hlt, rfl⟩ rfl ?_
  have hview : (h.view listener).after (.told listener h.model) =
      { h with
        listeners := h.listeners.set listener (((h.listeners[listener]?).getD []).drop 1) }.view
          (listener + 1) := by
    simp [View.after, view]
  rw [hview]
  exact path_actAll _ _ _

/-- Actions publish nothing. -/
theorem actAll_published (as : List Action) (h : Host) :
    (h.actAll as).2.model = h.model ∧ (h.actAll as).2.generation = h.generation := by
  induction as generalizing h with
  | nil => exact ⟨rfl, rfl⟩
  | cons a as ih =>
    have hview := view_act h a 0
    obtain ⟨hmodel, hgeneration⟩ := ih (h.act a).host
    exact ⟨hmodel.trans (congrArg View.model hview),
      hgeneration.trans (congrArg View.generation hview)⟩

/-- The listeners that are left are called with the published model. -/
theorem path_announceEach (next n : Nat) {h : Host} (hlen : h.listeners.length = next + n) :
    Path (h.view next) (h.announceLog h.model (List.range' next n))
      ((h.announceEach h.model (List.range' next n)).2.view (next + n)) := by
  induction n generalizing h next with
  | zero => exact .nil
  | succ n ih =>
    have hmodel : (h.announceTo h.model next).2.model = h.model := by
      simp [announceTo, actAll_published]
    have hlen' : (h.announceTo h.model next).2.listeners.length = next + 1 + n := by
      simp only [announceTo, actAll_listeners, List.length_set]
      omega
    have hrest := ih (next + 1) hlen'
    rw [hmodel] at hrest
    rw [show next + (n + 1) = next + 1 + n by omega]
    exact (path_announceTo (by omega)).append hrest

namespace Run

theorem path_arrive (r : Run) (told : Nat) :
    Path (r.host.view told) r.arriveLog (r.arrive.host.view told) := by
  unfold arriveLog arrive
  cases r.arrivals with
  | nil => exact .nil
  | cons actions arrivals => exact path_actAll _ _ _

/-- A model of the next generation is published and told to everyone, or nothing happens. -/
theorem path_finish (r : Run) {m : Model} (hm : m.generation = r.host.generation + 1) :
    Path (r.host.view r.host.listeners.length) (r.finishLog m)
      ((r.finish m).host.view (r.finish m).host.listeners.length) := by
  unfold finishLog finish
  cases hp : r.host.publish m with
  | error e => exact .nil
  | ok host =>
    obtain ⟨-, -, rfl⟩ := Protocol.publish_eq_ok hp
    refine .cons ⟨hm, rfl⟩ rfl ?_
    have htold := path_announceEach 0 r.host.listeners.length
      (h := { r.host with generation := m.generation, model := m }) (Nat.zero_add _).symm
    simp only [announce, length_listeners_announceEach]
    rw [← List.range_eq_range', Nat.zero_add] at htold
    exact htold

theorem arrive_listeners (r : Run) : r.arrive.host.listeners = r.host.listeners := by
  unfold arrive
  cases r.arrivals with
  | nil => rfl
  | cons actions arrivals => exact actAll_listeners _ _

theorem arrive_published (r : Run) :
    r.arrive.host.model = r.host.model ∧ r.arrive.host.generation = r.host.generation := by
  unfold arrive
  cases r.arrivals with
  | nil => exact ⟨rfl, rfl⟩
  | cons actions arrivals => exact actAll_published _ _

theorem passLog_of_covers {r : Run} (h : r.host.beginPass.covers r.host.beginPass.snapshot = true) :
    r.passLog = [] := by
  unfold passLog
  exact if_pos h

theorem passLog_of_not_covers {r : Run}
    (h : r.host.beginPass.covers r.host.beginPass.snapshot = false) :
    r.passLog = { r with host := r.host.beginPass }.arriveLog ++
      ({ r with host := r.host.beginPass }.arrive).finishLog
        (r.host.beginPass.candidate r.host.beginPass.snapshot) := by
  unfold passLog
  exact if_neg (by rw [h]; nofun)

theorem path_pass (r : Run) :
    Path (r.host.view r.host.listeners.length) r.passLog
      (r.pass.host.view r.pass.host.listeners.length) := by
  cases hcovers : r.host.beginPass.covers r.host.beginPass.snapshot with
  | true =>
    rw [pass_of_covers hcovers, passLog_of_covers hcovers]
    exact .nil
  | false =>
    rw [pass_of_not_covers hcovers, passLog_of_not_covers hcovers]
    have harrive := path_arrive { r with host := r.host.beginPass } r.host.listeners.length
    have hfinish := path_finish { r with host := r.host.beginPass }.arrive
      (m := r.host.beginPass.candidate r.host.beginPass.snapshot)
      (by rw [(arrive_published _).2]; rfl)
    rw [arrive_listeners] at hfinish
    exact harrive.append hfinish

theorem path_passes (fuel : Nat) (r : Run) :
    Path (r.host.view r.host.listeners.length) (r.passesLog fuel)
      ((r.passes fuel).host.view (r.passes fuel).host.listeners.length) := by
  induction fuel generalizing r with
  | zero => exact .nil
  | succ fuel ih =>
    rw [passesLog, passes_succ]
    refine r.path_pass.append ?_
    split
    · exact ih r.pass
    · exact .nil

end Run

theorem path_rebuild (h : Host) (arrivals : List (List Action)) :
    Path (h.view h.listeners.length) (h.rebuildLog arrivals)
      ((h.rebuild arrivals).host.view (h.rebuild arrivals).host.listeners.length) := by
  unfold rebuildLog
  cases hfree : h.building with
  | true =>
    unfold rebuild
    rw [hfree]
    exact .nil
  | false =>
    rw [rebuild_of_free hfree]
    exact Run.path_passes _ (Run.start h arrivals)

theorem path_call (h : Host) (c : Call) :
    Path (h.view h.listeners.length) (h.callLog c)
      ((h.call c).view (h.call c).listeners.length) := by
  have hact : ∀ a, Path (h.view h.listeners.length) [(h.act a).entry]
      ((h.act a).host.view (h.act a).host.listeners.length) := by
    intro a
    rw [act_listeners, view_act]
    exact .single trivial (by rw [← view_act]; rfl)
  cases c with
  | edit e => exact hact (.edit e)
  | registerModule name custom => exact hact (.registerModule name custom)
  | fileId path => exact hact (.fileId path)
  | subscribe script =>
    have hview : (h.view h.listeners.length).after (.subscribed h.listeners.length) =
        (h.subscribe script).2.view (h.subscribe script).2.listeners.length := by
      simp [View.after, view, subscribe]
    rw [show (h.call (.subscribe script)) = (h.subscribe script).2 from rfl, ← hview]
    exact .single ⟨rfl, rfl⟩ (by simp [View.after, view, subscribe])
  | rebuild arrivals => exact (path_rebuild h arrivals).append (.single trivial rfl)

theorem path_chronicle (calls : List Call) (h : Host) :
    Path (h.view h.listeners.length) (h.chronicle calls)
      ((h.session calls).view (h.session calls).listeners.length) := by
  induction calls generalizing h with
  | nil => exact .nil
  | cons c calls ih => exact (path_call h c).append (ih (h.call c))

/-! ## Along a path -/

namespace View

variable {v : View} {d : Deed}

/-- The generation is that of the model. -/
def Coherent (v : View) : Prop := v.generation = v.model.generation

theorem Coherent.after (h : v.Coherent) (d : Deed) : (v.after d).Coherent := by
  cases d with
  | published m => rfl
  | _ => exact h

theorem revision_after (v : View) (d : Deed) :
    (v.after d).revision = v.revision + d.isChange.toNat := by
  cases d <;> rfl

theorem model_after (v : View) (d : Deed) : (v.after d).model = d.model?.getD v.model := by
  cases d <;> rfl

theorem generation_after (h : v.Allows d) :
    (v.after d).generation = v.generation + d.model?.toList.length := by
  cases d with
  | published m => exact h.1
  | _ => rfl

theorem range_listeners_after (h : v.Allows d) :
    List.range (v.after d).listeners = List.range v.listeners ++ d.subscribed?.toList := by
  cases d with
  | subscribed i =>
    obtain ⟨rfl, -⟩ := h
    exact List.range_succ
  | _ => exact (List.append_nil _).symm

/-- The next generation that a listener will be called with. -/
def due (v : View) (listener : Nat) : Nat :=
  if listener < v.told then v.generation + 1 else v.generation

theorem due_of_told {i : Nat} (h : i < v.told) : v.due i = v.generation + 1 := if_pos h

/-- A deed is the call that a listener is due, or it leaves open what it is due. -/
theorem due_after (h : v.Allows d) (hc : v.Coherent) {i : Nat} (hi : i < v.listeners) :
    d.heardBy? i = some (v.due i) ∧ (v.after d).due i = v.due i + 1 ∨
      d.heardBy? i = none ∧ (v.after d).due i = v.due i := by
  cases d with
  | replied reply => exact .inr ⟨rfl, rfl⟩
  | subscribed j =>
    obtain ⟨-, htold⟩ := h
    refine .inr ⟨rfl, ?_⟩
    simp [due, after, htold, hi, Nat.lt_succ_of_lt hi]
  | published m =>
    -- everyone has been called with the model before, so the new one is due next
    obtain ⟨hnext, htold⟩ := h
    refine .inr ⟨rfl, ?_⟩
    simp [due, after, htold, hi, hnext]
  | told j m =>
    obtain ⟨rfl, -, rfl⟩ := h
    by_cases hij : v.told = i
    · subst hij
      refine .inl ⟨?_, ?_⟩
      · simpa [Deed.heardBy?, due] using Eq.symm hc
      · simp [due, after]
    · refine .inr ⟨by simp [Deed.heardBy?, hij], ?_⟩
      have hlt : i < v.told + 1 ↔ i < v.told := by omega
      simp [due, after, hlt]

end View

namespace Path

variable {v w : View} {log : List Entry}

theorem coherent (h : Path v log w) (hv : v.Coherent) : w.Coherent := by
  induction h with
  | nil => exact hv
  | cons _ _ _ ih => exact ih (hv.after _)

theorem revision (h : Path v log w) : w.revision = v.revision + changes log := by
  induction h with
  | nil => rfl
  | @cons v w e log _ _ _ ih =>
    unfold changes at ih ⊢
    rw [ih, View.revision_after, List.countP_cons]
    cases e.deed.isChange with
    | true => simp only [Bool.toNat_true, if_true]; omega
    | false => rfl

theorem generation (h : Path v log w) : w.generation = v.generation + (publications log).length := by
  induction h with
  | nil => rfl
  | @cons v w e log allowed _ _ ih =>
    rw [ih, View.generation_after allowed]
    unfold publications
    rw [List.filterMap_cons]
    cases e.deed.model? with
    | none => rfl
    | some m => simp only [Option.toList_some, List.length_cons, List.length_nil]; omega

theorem model (h : Path v log w) : w.model = (publications log).getLast?.getD v.model := by
  induction h with
  | nil => rfl
  | @cons v w e log _ _ _ ih =>
    rw [ih, View.model_after]
    unfold publications
    rw [List.filterMap_cons]
    cases e.deed.model? with
    | none => rfl
    | some m => rw [List.getLast?_cons]; rfl

theorem range_listeners (h : Path v log w) :
    List.range w.listeners = List.range v.listeners ++ subscriptions log := by
  induction h with
  | nil => exact (List.append_nil _).symm
  | @cons v w e log allowed _ _ ih =>
    rw [ih, View.range_listeners_after allowed, List.append_assoc]
    unfold subscriptions
    rw [List.filterMap_cons]
    cases e.deed.subscribed? <;> rfl

theorem listeners_le (h : Path v log w) : v.listeners ≤ w.listeners := by
  have hlength := congrArg List.length h.range_listeners
  rw [List.length_append, List.length_range, List.length_range] at hlength
  omega

/-- A listener is called with consecutive generations, from the one that it is due on. -/
theorem heard_eq (h : Path v log w) (hv : v.Coherent) {i : Nat} (hi : i < v.listeners) :
    ∃ n, heard i log = List.range' (v.due i) n ∧ w.due i = v.due i + n := by
  induction h with
  | nil => exact ⟨0, rfl, rfl⟩
  | @cons v w e log allowed shown _ ih =>
    have hi' : i < (v.after e.deed).listeners :=
      Nat.lt_of_lt_of_le hi (Path.single allowed shown).listeners_le
    obtain ⟨n, hheard, hdue⟩ := ih (hv.after _) hi'
    unfold heard at hheard ⊢
    rw [List.filterMap_cons, hheard, hdue]
    rcases View.due_after allowed hv hi with ⟨hcall, hnext⟩ | ⟨hno, hsame⟩
    · rw [hcall, hnext]
      exact ⟨n + 1, rfl, by omega⟩
    · rw [hno, hsame]
      exact ⟨n, rfl, rfl⟩

/-- Between two moments when everyone has been called, a listener is called with the generations that
were published. -/
theorem heard_between (h : Path v log w) (hv : v.Coherent) (hall : v.told = v.listeners)
    (hall' : w.told = w.listeners) {i : Nat} (hi : i < v.listeners) :
    heard i log = List.range' (v.generation + 1) (w.generation - v.generation) := by
  obtain ⟨n, hheard, hdue⟩ := h.heard_eq hv hi
  have hi' : i < w.told := by
    rw [hall']
    exact Nat.lt_of_lt_of_le hi h.listeners_le
  rw [View.due_of_told hi', View.due_of_told (hall ▸ hi)] at hdue
  rw [hheard, View.due_of_told (hall ▸ hi), show w.generation - v.generation = n by omega]

/-- Nobody is called before subscribing. -/
theorem heard_eq_nil (h : Path v log w) {i : Nat} (hi : w.listeners ≤ i) : heard i log = [] := by
  induction h with
  | nil => rfl
  | @cons v w e log allowed shown rest ih =>
    have hle := (Path.cons allowed shown rest).listeners_le
    have hno : e.deed.heardBy? i = none := by
      cases hd : e.deed with
      | told j m =>
        rw [hd] at allowed
        obtain ⟨rfl, hlt, -⟩ := allowed
        have hne : v.told ≠ i := by omega
        simp [Deed.heardBy?, hne]
      | _ => rfl
    have hrest := ih hi
    unfold heard at hrest ⊢
    rw [List.filterMap_cons, hno]
    exact hrest

/-- The view before an entry, and the log from the view after it on. -/
theorem exists_before {before after : List Entry} {e : Entry}
    (h : Path v (before ++ e :: after) w) :
    ∃ u, Path v before u ∧ u.Allows e.deed ∧
      e.host.view (u.after e.deed).told = u.after e.deed ∧ Path (u.after e.deed) after w := by
  obtain ⟨u, hbefore, hafter⟩ := h.split
  cases hafter with
  | cons allowed shown rest => exact ⟨u, hbefore, allowed, shown, rest⟩

/-- A log leads up to each of its entries. -/
theorem upTo {before after : List Entry} {e : Entry} (h : Path v (before ++ e :: after) w) :
    ∃ told, Path v (before ++ [e]) (e.host.view told) := by
  obtain ⟨u, hbefore, hallowed, hshown, -⟩ := h.exists_before
  refine ⟨(u.after e.deed).told, ?_⟩
  rw [hshown]
  exact hbefore.append (.single hallowed hshown)

end Path

/-! ## What a rebuild reports -/

def Event.deeds : Event → List Deed
  | .arrived _ moments => moments.map fun x => .replied x.reply
  | .announced listener m moments => .told listener m :: moments.map fun x => .replied x.reply

/-- The deeds that a rebuild reports: all but the publications. -/
def reported (log : List Entry) : List Deed :=
  (log.map Entry.deed).filter fun d => d.model?.isNone

theorem reported_append (log log' : List Entry) :
    reported (log ++ log') = reported log ++ reported log' := by
  simp [reported]

theorem reported_moments (moments : List Moment) :
    reported (moments.map Moment.entry) = moments.map fun x => .replied x.reply := by
  unfold reported
  rw [List.map_map, List.filter_eq_self.2]
  · rfl
  · intro d hd
    obtain ⟨x, -, rfl⟩ := List.mem_map.1 hd
    rfl

theorem reported_event (h : Host) (e : Event) : reported (e.log h) = e.deeds := by
  cases e with
  | arrived number moments => exact reported_moments moments
  | announced listener m moments => exact congrArg (_ :: ·) (reported_moments moments)

theorem reported_announceLog (m : Model) (listeners : List Nat) (h : Host) :
    reported (h.announceLog m listeners) = (h.announceEach m listeners).1.flatMap Event.deeds := by
  induction listeners generalizing h with
  | nil => rfl
  | cons listener more ih =>
    rw [announceLog, reported_append, reported_event, ih]
    rfl

namespace Run

/-- The deeds of the events so far. -/
def deeds (r : Run) : List Deed := r.events.flatMap Event.deeds

theorem deeds_arrive (r : Run) : r.arrive.deeds = r.deeds ++ reported r.arriveLog := by
  unfold arriveLog arrive
  cases r.arrivals with
  | nil => exact (List.append_nil _).symm
  | cons actions arrivals => simp [deeds, Event.deeds, reported_moments]

theorem deeds_finish (r : Run) (m : Model) :
    (r.finish m).deeds = r.deeds ++ reported (r.finishLog m) := by
  unfold finishLog finish
  cases r.host.publish m with
  | error e => exact (List.append_nil _).symm
  | ok host =>
    have htold := reported_announceLog m (List.range host.listeners.length) host
    rw [show ∀ log, reported (⟨.published m, host⟩ :: log) = reported log from fun _ => rfl, htold]
    simp [deeds, announce]

theorem deeds_pass (r : Run) : r.pass.deeds = r.deeds ++ reported r.passLog := by
  cases hcovers : r.host.beginPass.covers r.host.beginPass.snapshot with
  | true =>
    rw [pass_of_covers hcovers, passLog_of_covers hcovers]
    exact (List.append_nil _).symm
  | false =>
    rw [pass_of_not_covers hcovers, passLog_of_not_covers hcovers, deeds_finish, deeds_arrive,
      reported_append, List.append_assoc]
    rfl

theorem deeds_passes (fuel : Nat) (r : Run) :
    (r.passes fuel).deeds = r.deeds ++ reported (r.passesLog fuel) := by
  induction fuel generalizing r with
  | zero => exact (List.append_nil _).symm
  | succ fuel ih =>
    rw [passesLog, passes_succ, reported_append, ← List.append_assoc, ← deeds_pass]
    split
    · exact ih r.pass
    · exact (List.append_nil _).symm

theorem finish_quiet {r : Run} {m : Model}
    (h : ∀ generation, (r.finish m).outcome ≠ .ok (.published generation)) :
    (r.finish m).host = r.host ∧ r.finishLog m = [] := by
  unfold finishLog finish at *
  cases hp : r.host.publish m with
  | error e => exact ⟨rfl, rfl⟩
  | ok host =>
    rw [hp] at h
    exact absurd rfl (h m.generation)

theorem replied_arriveLog (r : Run) : ∀ e ∈ r.arriveLog, ∃ reply, e.deed = .replied reply := by
  intro e he
  unfold arriveLog at he
  cases harrivals : r.arrivals with
  | nil =>
    rw [harrivals] at he
    cases he
  | cons actions arrivals =>
    rw [harrivals] at he
    obtain ⟨x, -, rfl⟩ := List.mem_map.1 he
    exact ⟨x.reply, rfl⟩

/-- A pass that ends without a publication changes nothing that is published and calls nobody. -/
theorem pass_quiet {r : Run} (h : ∀ generation, r.pass.outcome ≠ .ok (.published generation)) :
    r.pass.host.model = r.host.model ∧ r.pass.host.generation = r.host.generation ∧
      r.pass.host.listeners = r.host.listeners ∧
      ∀ e ∈ r.passLog, ∃ reply, e.deed = .replied reply := by
  cases hcovers : r.host.beginPass.covers r.host.beginPass.snapshot with
  | true =>
    rw [pass_of_covers hcovers, passLog_of_covers hcovers]
    exact ⟨rfl, rfl, rfl, by simp⟩
  | false =>
    rw [pass_of_not_covers hcovers] at h ⊢
    rw [passLog_of_not_covers hcovers]
    obtain ⟨hfinish, hlog⟩ := finish_quiet h
    rw [hfinish, hlog, List.append_nil]
    obtain ⟨hmodel, hgeneration⟩ := arrive_published { r with host := r.host.beginPass }
    exact ⟨hmodel, hgeneration, arrive_listeners _, replied_arriveLog _⟩

end Run

theorem reported_rebuildLog (h : Host) (arrivals : List (List Action)) :
    reported (h.rebuildLog arrivals) = (h.rebuild arrivals).events.flatMap Event.deeds := by
  unfold rebuildLog
  cases hfree : h.building with
  | true =>
    unfold rebuild
    rw [hfree]
    rfl
  | false =>
    have hpasses := Run.deeds_passes ((Run.start h arrivals).listsLeft + 1) (Run.start h arrivals)
    rw [show (Run.start h arrivals).deeds = [] from rfl, List.nil_append] at hpasses
    rw [rebuild_of_free hfree, if_neg nofun, ← hpasses]
    rfl

/-! ## Sessions -/

theorem getLast?_callLog (h : Host) (c : Call) :
    (h.callLog c).getLast?.map Entry.host = some (h.call c) := by
  cases c with
  | rebuild arrivals => rw [callLog, List.getLast?_concat]; rfl
  | _ => rfl

/-- A session ends with the host of its last entry. -/
theorem getLast?_chronicle (calls : List Call) (h : Host) :
    ((h.chronicle calls).getLast?.map Entry.host).getD h = h.session calls := by
  induction calls generalizing h with
  | nil => rfl
  | cons c calls ih =>
    rw [chronicle, session, ← ih (h.call c), List.getLast?_append]
    cases ((h.call c).chronicle calls).getLast? with
    | some e => rfl
    | none => simp [getLast?_callLog]

/-- Counters and calls to listeners are in order throughout a log that ends with a host. -/
structure Consistent (config : Config) (log : List Entry) (final : Host) : Prop where
  ended : (log.getLast?.map Entry.host).getD (.new config) = final
  coherent : ∀ e ∈ log, e.host.generation = e.host.model.generation
  revision : ∀ before e after, log = before ++ e :: after →
    e.host.revision = changes (before ++ [e])
  generation : ∀ before e after, log = before ++ e :: after →
    e.host.generation = (publications (before ++ [e])).length
  snapshot : ∀ before e after, log = before ++ e :: after →
    e.host.model = (publications (before ++ [e])).getLast?.getD (.empty config)
  subscribed : subscriptions log = List.range final.listeners.length
  called : ∀ e ∈ log, ∀ listener m, e.deed = .told listener m → e.host.model = m
  unheard : ∀ before listener host after, log = before ++ ⟨.subscribed listener, host⟩ :: after →
    heard listener before = []
  heard : ∀ before listener host after, log = before ++ ⟨.subscribed listener, host⟩ :: after →
    heard listener after =
      List.range' (host.generation + 1) (final.generation - host.generation)

theorem Path.consistent {config : Config} {log : List Entry} {final : Host}
    (h : Path ((Host.new config).view 0) log (final.view final.listeners.length))
    (hended : (log.getLast?.map Entry.host).getD (.new config) = final) :
    Consistent config log final := by
  have hnew : ((Host.new config).view 0).Coherent := rfl
  constructor
  · exact hended
  · intro e he
    obtain ⟨before, after, rfl⟩ := List.append_of_mem he
    obtain ⟨told, hupTo⟩ := h.upTo
    exact hupTo.coherent hnew
  · rintro before e after rfl
    obtain ⟨told, hupTo⟩ := h.upTo
    exact hupTo.revision.trans (Nat.zero_add _)
  · rintro before e after rfl
    obtain ⟨told, hupTo⟩ := h.upTo
    exact hupTo.generation.trans (Nat.zero_add _)
  · rintro before e after rfl
    obtain ⟨told, hupTo⟩ := h.upTo
    exact hupTo.model
  · exact h.range_listeners.symm
  · intro e he listener m hdeed
    obtain ⟨before, after, rfl⟩ := List.append_of_mem he
    obtain ⟨u, -, hallowed, hshown, -⟩ := h.exists_before
    rw [hdeed] at hallowed hshown
    exact (congrArg View.model hshown).trans hallowed.2.2.symm
  · rintro before listener host after rfl
    obtain ⟨u, hbefore, ⟨hlistener, -⟩, -, -⟩ := h.exists_before
    exact hbefore.heard_eq_nil (Nat.le_of_eq hlistener.symm)
  · rintro before listener host after rfl
    obtain ⟨u, hbefore, ⟨hlistener, hall⟩, hshown, hafter⟩ := h.exists_before
    have hgeneration : host.generation = u.generation := congrArg View.generation hshown
    have hlt : listener < u.listeners + 1 := by omega
    rw [hgeneration]
    exact hafter.heard_between ((hbefore.coherent hnew).after _) (congrArg (· + 1) hall) rfl hlt

/-- Whatever the calls of a session are, and the actions that listeners and arrivals take inside its
rebuilds, counters and calls to listeners are in order; the log of a rebuild is what the rebuild
reports; and a pass that is up to date or superseded changes nothing published and calls nobody. -/
theorem consistent_chronicle (config : Config) (calls : List Call) :
    Consistent config ((Host.new config).chronicle calls) ((Host.new config).session calls) ∧
      (∀ (h : Host) (arrivals : List (List Action)),
        reported (h.rebuildLog arrivals) = (h.rebuild arrivals).events.flatMap Event.deeds) ∧
      ∀ r : Run, (r.pass.outcome = .error .superseded ∨
          ∃ generation, r.pass.outcome = .ok (.upToDate generation)) →
        r.pass.host.model = r.host.model ∧ r.pass.host.generation = r.host.generation ∧
          r.pass.host.listeners = r.host.listeners ∧
          ∀ e ∈ r.passLog, ∃ reply, e.deed = .replied reply := by
  refine ⟨?_, reported_rebuildLog, ?_⟩
  · exact (path_chronicle calls (.new config)).consistent (getLast?_chronicle calls (.new config))
  · intro r hr
    refine Run.pass_quiet ?_
    intro generation hpublished
    rcases hr with hr | ⟨_, hr⟩ <;> rw [hpublished] at hr <;> cases hr

-- The first listener edits and asks for another pass when it is called first; the second one comes
-- between two rebuilds, and the last rebuild begins with a pass that is superseded.
example :
    let log := (Host.new {}).chronicle [.subscribe [[.edit (.setGroup (.empty ⟨1⟩ ⟨0⟩)), .rebuild]],
      .edit (.setGroup (.empty ⟨0⟩ ⟨0⟩)), .rebuild [], .subscribe [],
      .edit (.setGroup (.empty ⟨2⟩ ⟨0⟩)), .rebuild [[.edit (.setGroup (.empty ⟨3⟩ ⟨0⟩))]]]
    heard 0 log = [1, 2, 3] ∧ heard 1 log = [3] ∧ changes log = 4 ∧
      (publications log).map Model.revision = [1, 2, 4] := by
  decide

end TypeAtlas.Host
