import Houston.Commands

/-!
# How much the firmware says

Every packet that comes in makes the firmware report on it. The shortest one has 16 bytes, and
there is none that it says more about than six frames; so bytes that come in pay for what goes
out, at three eighths of a frame for each.

* `Firmware.volume` — what was said, and what the bytes that are still to be read have paid for.
* `ReadStep.volume_le` — no read raises it.
* `volume` — the bound for every run of allowed operations, and that it is attained.
-/

namespace Houston

open Relation Runs

variable {w v : Firmware} {es : List Entry} {bs : List Byte}

namespace Op

/-- The bytes that an operation lets arrive. -/
def bytes : Op → List Byte
  | .arrive bytes => bytes
  | _ => []

/-- The calls of an operation that send a packet. -/
def calls : Op → List Call
  | .send _ call => [call]
  | _ => []

/-- What an operation pays, in eighths of a frame. -/
def cost (op : Op) : ℕ := 8 * op.calls.length + 3 * op.bytes.length

end Op

theorem sum_cost (ops : List Op) :
    (ops.map Op.cost).sum = 8 * (ops.flatMap Op.calls).length + 3 * (ops.flatMap Op.bytes).length := by
  induction ops with
  | nil => rfl
  | cons op ops ih =>
    rw [List.map_cons, List.sum_cons, ih, Op.cost, List.flatMap_cons, List.flatMap_cons,
      List.length_append, List.length_append]
    omega

/-! ## What is said of a packet -/

theorem length_greeting_le (bs : List Byte) : (greeting bs).length ≤ 1 := by
  rw [greeting]
  split_ifs
  · exact le_refl 1
  · exact le_refl 1
  · exact Nat.zero_le 1

namespace Store

theorem length_reply_le (type : Byte) (t : Store) : (t.reply type).1.length ≤ 2 := by
  rw [reply]
  split_ifs
  · exact le_refl 2
  · exact le_refl 2
  · exact Nat.le_succ 1
  · exact Nat.zero_le 2

theorem length_judge_le (bs : List Byte) (t : Store) : (t.judge bs).1.length ≤ 5 := by
  have hreply := (t.load bs).length_reply_le (packetTypeOf bs)
  rw [judge]
  split_ifs
  · rw [List.length_append, List.length_cons, List.length_cons, List.length_cons, List.length_nil]
    omega
  · exact Nat.le_add_left 3 2

end Store

/-! ## The potential -/

/-- **What was said**, in eighths of a frame, together with what the bytes that are still to be read
have paid for. The first frame about a packet goes out when its header is accepted, which is then
still to be read with the payload. -/
def Firmware.volume (w : Firmware) : ℕ :=
  8 * (sentFrames w.trace).length + (3 * w.pending.length - 8 * w.greeted)

/-- An accepted header is still there. -/
theorem greeted_le (w : Firmware) : 12 * w.greeted ≤ w.pending.length := by
  rw [Firmware.greeted]
  split_ifs with hstatus
  · rw [pending_of_received hstatus, List.length_append, w.length_take_rxBuffer]
    exact Nat.le_add_right _ _
  · exact Nat.zero_le _

/-- **No read** says more than has been paid for. -/
theorem ReadStep.volume_le (h : Sound w es) (hstep : ReadStep w v) : v.volume ≤ w.volume := by
  have hpaid := greeted_le w
  cases hstep with
  | header hstatus hlen =>
    obtain ⟨hsent, -⟩ := greet_takeHeader hlen
    obtain ⟨hcase, -⟩ := pending_takeHeader hstatus hlen
    have hgreeting := length_greeting_le w.incoming
    have hstatus' := congrArg Dashboard.packetStatus (dashboard_takeHeader hlen)
    rw [← pending_of_waiting hstatus] at hlen hstatus'
    rw [Firmware.volume, Firmware.volume, hsent, List.length_append, List.length_map,
      greeted_of_waiting hstatus]
    rcases hcase with ⟨hadmits, hsame⟩ | ⟨-, hdrop⟩
    · -- a frame has been sent that was accounted for with the header
      have hgreeted : w.takeHeader.greeted = 1 := by
        rw [Firmware.greeted, hstatus', if_pos hadmits]
        rfl
      rw [hgreeted, hsame]
      omega
    · -- twelve bytes have paid for at most one frame
      rw [hdrop, List.length_drop]
      omega
  | payload hstatus hlen =>
    obtain ⟨hsent, -⟩ := judge_takePayload h hstatus hlen
    obtain ⟨-, hle, hpending, -⟩ := pending_takePayload h hstatus hlen
    have hjudge := w.store.length_judge_le w.pending
    have hsixteen := sixteen_le_announced w.pending
    have hgreeted : w.greeted = 1 := if_pos hstatus
    rw [Firmware.volume, Firmware.volume, hsent, hpending, List.length_append, List.length_map,
      List.length_drop, hgreeted, greeted_of_waiting (status_takePayload w)]
    omega

theorem steps_volume_le (h : Sound w es) (hlistening : w.Listening)
    (hsteps : ReflTransGen ReadStep w v) : v.volume ≤ w.volume := by
  induction hsteps with
  | refl => exact le_refl _
  | tail hsteps hstep ih =>
    obtain ⟨-, hsound, -⟩ := steps_parse h hlistening hsteps
    exact (hstep.volume_le hsound).trans ih

/-- **One operation** pays for what it brings about. -/
theorem Reachable.volume_le {op : Op} (h : Reachable w) (ha : op.Allowed) (hrun : op.run w = some v) :
    v.volume ≤ w.volume + op.cost := by
  obtain ⟨es, hsound⟩ := h.sound
  rcases hsound.op_cases ha hrun with ⟨_, _, _, -, _, _, _, rfl⟩ | ⟨_, -, hsteps⟩ |
    ⟨io, call, rfl, -, rfl⟩ | ⟨bytes, rfl, rfl⟩ | ⟨_, _, -, rfl⟩
  · exact Nat.le_add_right _ _
  · exact (steps_volume_le hsound h.listening hsteps).trans (Nat.le_add_right _ _)
  · have hpending : (w.send call).pending = w.pending := rfl
    have hgreeted : (w.send call).greeted = w.greeted := rfl
    have hcost : (Op.send io call).cost = 8 := rfl
    rw [Firmware.volume, Firmware.volume, sent_send, hpending, hgreeted, hcost, List.length_append,
      List.length_singleton]
    omega
  · have hgreeted : (w.feed bytes).greeted = w.greeted := rfl
    have hsent : sentFrames (w.feed bytes).trace = sentFrames w.trace := rfl
    have hcost : (Op.arrive bytes).cost = 8 * 0 + 3 * bytes.length := rfl
    have hpaid := greeted_le w
    rw [Firmware.volume, Firmware.volume, pending_feed, hgreeted, hsent, hcost, List.length_append]
    omega
  · exact Nat.le_add_right _ _

/-! ## Requests -/

/-- A request at the front is answered with five frames behind the first one. -/
theorem Store.length_judge_request (t : Store) (bs : List Byte) :
    (t.judge (request.bytes ++ bs)).1.length = 5 := by
  obtain ⟨said, hsaid, -, hjudge⟩ := t.judge_packet request (by decide) bs
  have hreply : ((t.load (request.bytes ++ bs)).reply request.packetType).1.length = 2 := rfl
  rw [hjudge, List.length_append, hsaid, hreply]

/-- Requests are answered with six frames each. -/
theorem Store.length_converse_requests : ∀ (n : ℕ) (t : Store),
    (t.converse (List.replicate n request.bytes).flatten).1.length = 6 * n := by
  intro n
  induction n with
  | zero =>
    intro t
    rw [List.replicate_zero, List.flatten_nil, t.converse_nil]
    rfl
  | succ n ih =>
    intro t
    obtain ⟨hadmits, hsize⟩ :=
      admits_packet request (by decide) (List.replicate n request.bytes).flatten
    rw [List.replicate_succ, List.flatten_cons, t.converse_of_admits hadmits (by
      rw [hsize, List.length_append]
      exact Nat.le_add_right _ _), hsize, List.drop_left, List.length_append, List.length_append,
      ih, t.length_judge_request, greeting_of_admits hadmits, List.length_singleton]
    omega

/-- A schedule is a run. -/
theorem runSchedule_eq (slots : List Slot) (w : Firmware) :
    runSchedule slots w = run Op.run (slots.map Slot.op) w := by
  rw [run, List.foldlM_map]
  rfl

/-- Nothing is sent, and no more arrives than the stream. -/
theorem bytes_schedule (slots : List Slot) :
    (slots.map Slot.op).flatMap Op.bytes = stream slots ∧
      (slots.map Slot.op).flatMap Op.calls = [] ∧ ∀ op ∈ slots.map Slot.op, op.Allowed := by
  rw [List.flatMap_map, List.flatMap_map, stream]
  refine ⟨List.flatMap_congr fun slot _ => ?_, List.flatMap_eq_nil_iff.mpr fun slot _ => ?_, ?_⟩
  · cases slot <;> rfl
  · cases slot <;> rfl
  · intro op hop
    obtain ⟨slot, -, rfl⟩ := List.mem_map.mp hop
    cases slot <;> exact trivial

/-- Requests that arrive at an idle firmware, and are all answered. -/
theorem Idle.requests (h : Idle w) (n : ℕ) :
    ∃ slots v, stream slots = (List.replicate n request.bytes).flatten ∧
      runSchedule slots w = some v ∧
      (sentFrames v.trace).length = (sentFrames w.trace).length + 6 * n := by
  obtain ⟨es, hsound⟩ := h.reachable.sound
  obtain ⟨slots, v, hstream, hrun, hquiet⟩ :=
    exists_schedule hsound (List.replicate n request.bytes).flatten
  obtain ⟨v', hrun', hend⟩ := schedule_outcome h.reachable slots
  obtain rfl := Option.some.inj (hrun.symm.trans hrun')
  refine ⟨slots, v, hstream, hrun, ?_⟩
  have hsent : sentFrames v.trace = (w.feed (stream slots)).outcome.1 := (Prod.mk.inj (hend hquiet)).1
  have hpending : (w.feed (stream slots)).pending = (List.replicate n request.bytes).flatten := by
    rw [pending_feed, pending_of_waiting h.waiting, h.empty, hstream, List.nil_append]
  have hgreeted : (w.feed (stream slots)).greeted = 0 := greeted_of_waiting h.waiting
  rw [hsent, Firmware.outcome, hpending, hgreeted, List.drop_zero, List.length_append,
    List.length_map, Store.length_converse_requests]
  rfl

/-- **The volume of what is said.** In a run of allowed operations from any state that the firmware
can reach, at most three frames go out for every eight bytes that come in, besides those that the
application sends. There is no better bound: requests that come in one after another make an idle
firmware send just as much. -/
theorem volume (h : Reachable w) :
    (∀ (ops : List Op) (v : Firmware), (∀ op ∈ ops, op.Allowed) → run Op.run ops w = some v →
      8 * (sentFrames v.trace).length ≤
        8 * ((sentFrames w.trace).length + (ops.flatMap Op.calls).length) +
          3 * (w.pending.length + (ops.flatMap Op.bytes).length)) ∧
    (Idle w → ∀ n : ℕ, ∃ (ops : List Op) (v : Firmware), (∀ op ∈ ops, op.Allowed) ∧
      run Op.run ops w = some v ∧ ops.flatMap Op.calls = [] ∧
      (ops.flatMap Op.bytes).length = 16 * n ∧
      8 * (sentFrames v.trace).length =
        8 * (sentFrames w.trace).length + 3 * (ops.flatMap Op.bytes).length) := by
  constructor
  · intro ops v hallowed hrun
    have hbound := run_potential (P := Op.Allowed) (I := Reachable) (fun ha h hstep => .step h ha hstep)
      (fun ha h hstep => h.volume_le ha hstep) hallowed h hrun
    rw [sum_cost, Firmware.volume, Firmware.volume] at hbound
    omega
  · intro hidle n
    obtain ⟨slots, v, hstream, hrun, hsent⟩ := hidle.requests n
    obtain ⟨hbytes, hcalls, hallowed⟩ := bytes_schedule slots
    have hsize : request.bytes.length = 16 := by decide
    have hlen : ((slots.map Slot.op).flatMap Op.bytes).length = 16 * n := by
      rw [hbytes, hstream, List.length_flatten, List.map_replicate, hsize,
        List.sum_replicate_nat, Nat.mul_comm]
    rw [runSchedule_eq] at hrun
    refine ⟨_, v, hallowed, hrun, hcalls, hlen, ?_⟩
    rw [hsent, hlen]
    omega

/-- A request that arrives in two pieces, and three that arrive at once. -/
theorem volume_oneVariable :
    (∃ v : Firmware, run Op.run [.arrive (request.bytes.take 7), .update openTransport,
        .arrive (request.bytes.drop 7), .update openTransport] oneVariable = some v ∧
      8 * (sentFrames v.trace).length ≤ 8 * ((sentFrames oneVariable.trace).length + 0) +
        3 * (oneVariable.pending.length + 16)) ∧
    ∃ (ops : List Op) (v : Firmware), (∀ op ∈ ops, op.Allowed) ∧
      run Op.run ops oneVariable = some v ∧ ops.flatMap Op.calls = [] ∧
      (ops.flatMap Op.bytes).length = 16 * 3 ∧
      8 * (sentFrames v.trace).length =
        8 * (sentFrames oneVariable.trace).length + 3 * (ops.flatMap Op.bytes).length := by
  obtain ⟨hbound, hattained⟩ := volume reachable_oneVariable
  have hallowed : ∀ op ∈ [Op.arrive (request.bytes.take 7), .update openTransport,
      .arrive (request.bytes.drop 7), .update openTransport], op.Allowed := by
    simp [Op.Allowed]
  obtain ⟨v, hrun⟩ := reachable_oneVariable.exists_run hallowed
  exact ⟨⟨v, hrun, hbound _ v hallowed hrun⟩, hattained ⟨reachable_oneVariable, rfl, rfl⟩ 3⟩

end Houston
