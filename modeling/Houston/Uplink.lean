import Houston.Receiver
import Houston.Transcript

/-!
# From the firmware to the host

Whatever arrives at the firmware, the host understands all that it sends: no frame fails a
check of the dispatcher, and none has a type without a handler.

* `Says` — from one state to another, the firmware has sent frames of sayings only.
* `Says.run` — so it is for every run of allowed operations.
* `uplink` — what the host dispatches of it is heard, in order and without an error.
-/

namespace Houston

open Relation Runs

variable {w u v : Firmware} {es : List Entry}

/-- From one state to another, the firmware has sent frames of sayings only. -/
def Says (w v : Firmware) : Prop :=
  ∃ sayings : List Saying, sentFrames v.trace = sentFrames w.trace ++ sayings.map Saying.frame

namespace Says

theorem of_trace (h : v.trace = w.trace) : Says w v :=
  ⟨[], by rw [h, List.map_nil, List.append_nil]⟩

theorem trans (h : Says w u) (h' : Says u v) : Says w v := by
  obtain ⟨sayings, hsent⟩ := h
  obtain ⟨sayings', hsent'⟩ := h'
  exact ⟨sayings ++ sayings', by rw [hsent', hsent, List.append_assoc, List.map_append]⟩

theorem send {c : Call} (h : c.size ≤ 99) (w : Firmware) : Says w (w.send c) :=
  ⟨[.call c h], sent_send c w⟩

theorem readStep (h : Sound w es) (hstep : ReadStep w v) : Says w v := by
  cases hstep with
  | header hstatus hlen => exact ⟨_, (greet_takeHeader hlen).1⟩
  | payload hstatus hlen => exact ⟨_, (judge_takePayload h hstatus hlen).1⟩

theorem steps (h : Sound w es) (hlistening : w.Listening) (hsteps : ReflTransGen ReadStep w v) :
    Says w v := by
  induction hsteps with
  | refl => exact of_trace rfl
  | tail hsteps hstep ih =>
    obtain ⟨-, hsound, -⟩ := steps_parse h hlistening hsteps
    exact ih.trans (readStep hsound hstep)

/-- **One operation.** -/
theorem op {op : Op} (h : Reachable w) (ha : op.Allowed) (hrun : op.run w = some v) :
    Says w v := by
  obtain ⟨es, hsound⟩ := h.sound
  rcases hsound.op_cases ha hrun with ⟨_, _, _, -, _, _, _, rfl⟩ | ⟨_, -, hsteps⟩ |
    ⟨_, _, -, hsize, rfl⟩ | ⟨_, -, rfl⟩ | ⟨_, _, -, rfl⟩
  · exact of_trace rfl
  · exact steps hsound h.listening hsteps
  · exact send hsize w
  · exact of_trace rfl
  · exact of_trace rfl

/-- **Every run.** -/
theorem run : ∀ {ops : List Op} {w v : Firmware}, Reachable w → (∀ op ∈ ops, op.Allowed) →
    Runs.run Op.run ops w = some v → Says w v := by
  intro ops
  induction ops with
  | nil =>
    intro w v _ _ hrun
    rw [← run_nil.mp hrun]
    exact of_trace rfl
  | cons o ops ih =>
    intro w v h hallowed hrun
    obtain ⟨u, hfirst, hrest⟩ := run_cons.mp hrun
    have ha := hallowed o List.mem_cons_self
    exact (Says.op h ha hfirst).trans
      (ih (.step h ha hfirst) (fun o ho => hallowed o (List.mem_cons_of_mem _ ho)) hrest)

end Says

/-! ## The host -/

/-- What is cut off a part of a stream is cut off the stream, first of all. -/
theorem readPackets_prefix {l m : List Byte} (h : l <+: m) :
    readPackets [] l <+: readPackets [] m := by
  obtain ⟨rest, rfl⟩ := h
  have hl := Receiver.readPackets_terminated [] l [] List.not_mem_nil
  rw [List.append_nil, readPackets, List.append_nil] at hl
  rw [hl, Receiver.readPackets_terminated rest l [] List.not_mem_nil]
  exact List.prefix_append _ _

/-- A sublist of the images, which may be known to be a prefix, is the image of such a list. -/
theorem exists_heard {α β : Type} {f : α → β} {l : List α} {m : List β} {p : Prop}
    (hsub : m.Sublist (l.map f)) (hfront : p → m <+: l.map f) :
    ∃ l', m = l'.map f ∧ l'.Sublist l ∧ (p → l' <+: l) := by
  by_cases hp : p
  · obtain ⟨l', hl', rfl⟩ := List.prefix_map_iff.mp (hfront hp)
    exact ⟨l', rfl, hl'.sublist, fun _ => hl'⟩
  · obtain ⟨l', hl', rfl⟩ := List.sublist_map_iff.mp hsub
    exact ⟨l', rfl, hl', fun h => absurd h hp⟩

/-- What was dispatched was put into the queue before. -/
theorem Receiver.dispatched_prefix (s : Receiver) : s.dispatched <+: s.content := by
  rw [Receiver.content, List.append_assoc]
  exact List.prefix_append _ _

/-- Of the frames of sayings, those that were put into the queue: some are missing if it was
full. -/
theorem content_of_sayings {sayings : List Saying} {steps : List Receiver.Step} {s : Receiver}
    (hsteps : run Receiver.step steps Receiver.start = some s)
    (hstream : steps.flatMap Receiver.Step.received <+: (sayings.map Saying.frame).flatten) :
    s.content.Sublist (sayings.map Saying.frame) ∧
      ((∀ arrival ∈ s.arrivals, arrival.2 < 1024) → s.content <+: sayings.map Saying.frame) := by
  have harrivals : s.arrivals.map Prod.fst <+: sayings.map Saying.frame := by
    have hcut := readPackets_prefix hstream
    rw [readPackets_flatten _ (Saying.delimited_frames sayings), ← Receiver.arrivals_run hsteps] at hcut
    exact (List.prefix_append _ _).trans hcut
  obtain ⟨-, hcontent⟩ := Receiver.handedOver_run hsteps
  -- of what was cut off, only what found the queue full is missing
  rw [hcontent, Receiver.accepted]
  refine ⟨(List.filter_sublist.map _).trans harrivals.sublist, fun hspace => ?_⟩
  rw [List.filter_eq_self.mpr]
  · exact harrivals
  · exact fun arrival harrival => decide_eq_true (Nat.ne_of_lt (hspace arrival harrival))

/-- **The host understands the firmware.** Whatever operations a firmware in use goes through,
and whatever arrives at it, what it sends are sayings. When a receiver has read any part of
their frames, in pieces of any sizes, then of what it has dispatched nothing fails a check or
lacks a handler; some sayings are missing if the queue was full, and none otherwise. -/
theorem uplink {ops : List Op} (h : Reachable w) (hallowed : ∀ op ∈ ops, op.Allowed)
    (hrun : run Op.run ops w = some v) :
    ∃ sayings : List Saying,
      sentFrames v.trace = sentFrames w.trace ++ sayings.map Saying.frame ∧
      ∀ {steps : List Receiver.Step} {s : Receiver},
        run Receiver.step steps Receiver.start = some s →
        steps.flatMap Receiver.Step.received <+: (sayings.map Saying.frame).flatten →
        ∃ (heard : List Saying) (h' : Host),
          s.dispatched = heard.map Saying.frame ∧ heard.Sublist sayings ∧
          ((∀ arrival ∈ s.arrivals, arrival.2 < 1024) → heard <+: sayings) ∧
          produce s.dispatched Host.main = some h' ∧
          h'.Holds (heard.filterMap Saying.telemetry) (heard.filterMap Saying.alertText)
            (heard.filterMap Saying.records) ∧
          h'.cerr = [] := by
  obtain ⟨sayings, hsent⟩ := Says.run h hallowed hrun
  refine ⟨sayings, hsent, fun {steps s} hsteps hstream => ?_⟩
  obtain ⟨hsub, hfirst⟩ := content_of_sayings hsteps hstream
  have hdispatched := s.dispatched_prefix
  obtain ⟨heard, hheard, hsublist, hfront⟩ := exists_heard (hdispatched.sublist.trans hsub)
    fun hspace => hdispatched.trans (hfirst hspace)
  obtain ⟨h', hproduce, hholds, hcerr⟩ := Host.holds_main.hear_all heard
  exact ⟨heard, h', hheard, hsublist, hfront, hheard ▸ hproduce, hholds, hcerr⟩

/-- A variable is registered, a request arrives behind a byte that does not belong to it, and the
application sends an alert. -/
def someOps : List Op :=
  [.register 1 (some 0) .int32, .arrive (0x33 :: request.bytes), .update openTransport,
    .send openTransport (.alert (literal "hot"))]

/-- What the firmware says in them is understood. -/
theorem uplink_some :
    ∃ v, run Op.run someOps (.boot fun _ => 7) = some v ∧
      ∃ sayings : List Saying,
        sentFrames v.trace =
          sentFrames (Firmware.boot fun _ => 7).trace ++ sayings.map Saying.frame ∧
        ∀ {steps : List Receiver.Step} {s : Receiver},
          run Receiver.step steps Receiver.start = some s →
          steps.flatMap Receiver.Step.received <+: (sayings.map Saying.frame).flatten →
          ∃ (heard : List Saying) (h' : Host),
            s.dispatched = heard.map Saying.frame ∧ heard.Sublist sayings ∧
            ((∀ arrival ∈ s.arrivals, arrival.2 < 1024) → heard <+: sayings) ∧
            produce s.dispatched Host.main = some h' ∧
            h'.Holds (heard.filterMap Saying.telemetry) (heard.filterMap Saying.alertText)
              (heard.filterMap Saying.records) ∧
            h'.cerr = [] := by
  have hallowed : ∀ op ∈ someOps, op.Allowed := by
    simp only [someOps, List.forall_mem_cons, Op.Allowed, true_and]
    exact ⟨by decide, fun _ hop => absurd hop List.not_mem_nil⟩
  obtain ⟨v, hrun⟩ := (Reachable.boot fun _ => 7).exists_run hallowed
  exact ⟨v, hrun, uplink (.boot fun _ => 7) hallowed hrun⟩

end Houston
