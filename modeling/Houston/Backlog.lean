import Houston.Volume

/-!
# How often to poll

An update reads one header, and one packet behind it. If no more than twelve bytes come in between
two updates, each of them leaves nothing behind that could be read; with thirteen bytes what is
left behind can grow without end.

* `Behind` — **the invariant**: how much more has come in than what an update leaves behind.
* `Behind.update` — twelve bytes are made up for.
* `keeps_up` — the bound for every run of allowed operations, and that it is exact.
-/

namespace Houston

open Runs

variable {w v : Firmware} {es : List Entry} {n : ℕ}

/-! ## Pace -/

namespace Op

/-- An update is told of all that has come in. -/
def Exact : Op → Prop
  | .update io => io.Exact
  | _ => True

/-- How much has come in since the last update, if it was `n` before. -/
def since (n : ℕ) : Op → ℕ
  | .update _ => 0
  | op => n + op.bytes.length

end Op

/-- No more than `limit` bytes come in between two updates. -/
def Paced (limit : ℕ) : ℕ → List Op → Prop
  | _, [] => True
  | n, op :: ops => op.since n ≤ limit ∧ Paced limit (op.since n) ops

/-! ## The invariant -/

/-- **The invariant**: but for `n` bytes, there is no more to be read than what is too short for a
header, or for the rest of a packet. -/
def Behind (n : ℕ) (w : Firmware) : Prop :=
  w.dashboard.packetStatus = .waiting ∧ w.incoming.length ≤ 12 + n ∨
    w.dashboard.packetStatus = .headerReceived ∧
      w.incoming.length < payloadSize w.rxBuffer.data + 4 + n

/-- Nothing is left behind when a further update changes nothing. -/
theorem behind_zero_iff (h : Sound w es) (hlistening : w.Listening) : Behind 0 w ↔ Quiet w := by
  rw [quiet_iff h]
  constructor
  · rintro hbehind v (⟨hstatus, hlen⟩ | ⟨hstatus, hlen⟩)
    · rcases hbehind with ⟨-, hle⟩ | ⟨hreceived, -⟩
      · exact absurd hlen (Nat.not_lt.mpr hle)
      · cases hstatus.symm.trans hreceived
    · rcases hbehind with ⟨hwaiting, -⟩ | ⟨-, hlt⟩
      · cases hstatus.symm.trans hwaiting
      · exact absurd hlen (Nat.not_le.mpr hlt)
  · intro hstuck
    rcases hlistening with hstatus | hstatus
    · exact Or.inl ⟨hstatus, Nat.not_lt.mp fun hlen => hstuck _ (.header hstatus hlen)⟩
    · exact Or.inr ⟨hstatus, Nat.not_le.mp fun hlen => hstuck _ (.payload hstatus hlen)⟩

namespace Behind

theorem feed (h : Behind n w) (bytes : List Byte) : Behind (n + bytes.length) (w.feed bytes) := by
  have hlen : (w.feed bytes).incoming.length = w.incoming.length + bytes.length :=
    List.length_append
  rcases h with ⟨hstatus, hle⟩ | ⟨hstatus, hlt⟩
  · refine Or.inl ⟨hstatus, ?_⟩
    rw [hlen]
    omega
  · refine Or.inr ⟨hstatus, ?_⟩
    have hsame : (w.feed bytes).rxBuffer = w.rxBuffer := rfl
    rw [hlen, hsame]
    omega

/-- The second half of an update. -/
theorem afterPayload {io : Transport} (hio : io.Exact) (hsound : Sound w es)
    (h : w.dashboard.packetStatus = .waiting ∧ w.incoming.length ≤ 12 ∨
      w.dashboard.packetStatus = .headerReceived ∧
        w.incoming.length < payloadSize w.rxBuffer.data + 4 + 12) :
    Behind 0 (if w.payloadReady io then w.takePayload else w) := by
  rcases h with ⟨hstatus, hle⟩ | ⟨hstatus, hlt⟩
  · rw [if_neg fun hready => by cases hstatus.symm.trans hready.1]
    exact Or.inl ⟨hstatus, hle⟩
  by_cases hlen : payloadSize w.rxBuffer.data + 4 ≤ w.incoming.length
  · have hsmall : payloadSize w.rxBuffer.data + 4 < 2 ^ 32 := by
      have hfits : 12 + payloadSize w.rxBuffer.data + 4 ≤ 100 := (hsound.header hstatus).2
      omega
    have hready : w.payloadReady io := ⟨hstatus, hio.ready true hsmall (by omega) hlen⟩
    rw [if_pos hready]
    refine Or.inl ⟨status_takePayload w, ?_⟩
    rw [incoming_takePayload, List.length_drop]
    omega
  · rw [if_neg fun hready => hlen (hready.2.2.trans (io.hasData_le _ _ hready.2.1))]
    exact Or.inr ⟨hstatus, Nat.not_le.mp hlen⟩

/-- **An update makes up for twelve bytes.** -/
theorem update {io : Transport} (hio : io.Exact) (hsound : Sound w es) (h : Behind n w)
    (hn : n ≤ 12) : Behind 0 (w.update io) := by
  refine afterPayload hio (hsound.afterHeader io) ?_
  rcases h with ⟨hstatus, hle⟩ | ⟨hstatus, hlt⟩
  · by_cases hlen : 12 < w.incoming.length
    · have hready : w.headerReady io := ⟨hstatus, hio.ready false (by decide) (by omega) hlen⟩
      have hfirst : w.afterHeader io = w.takeHeader := if_pos hready
      have hleft : w.takeHeader.incoming.length ≤ 12 := by
        rw [incoming_takeHeader, List.length_drop]
        omega
      rw [hfirst]
      -- the header may have been accepted, but there is no room for more than twelve bytes
      rcases Firmware.Listening.step (ReadStep.header hstatus hlen) with hwaiting | hreceived
      · exact Or.inl ⟨hwaiting, hleft⟩
      · exact Or.inr ⟨hreceived, by omega⟩
    · have hfirst : w.afterHeader io = w :=
        if_neg fun hready => hlen (hready.2.2.trans_le (io.hasData_le _ _ hready.2.1))
      rw [hfirst]
      exact Or.inl ⟨hstatus, Nat.not_lt.mp hlen⟩
  · have hfirst : w.afterHeader io = w :=
      if_neg fun hready => by cases hstatus.symm.trans hready.1
    rw [hfirst]
    exact Or.inr ⟨hstatus, by omega⟩

/-- **One operation.** -/
theorem op {op : Op} (hsound : Sound w es) (ha : op.Allowed) (hexact : op.Exact) (h : Behind n w)
    (hn : n ≤ 12) (hrun : op.run w = some v) : Behind (op.since n) v := by
  rcases hsound.op_cases ha hrun with ⟨_, _, _, rfl, _, _, _, rfl⟩ | ⟨io, rfl, -⟩ |
    ⟨_, _, rfl, -, rfl⟩ | ⟨bytes, rfl, rfl⟩ | ⟨_, _, rfl, rfl⟩
  · exact h
  · obtain ⟨status, hupdate⟩ := dashboardUpdate_eq io hsound
    have hv : v = w.update io :=
      Option.some.inj (hrun.symm.trans (congrArg (Option.map Prod.snd) hupdate))
    rw [hv]
    exact update hexact hsound h hn
  · exact h
  · exact h.feed bytes
  · exact h

/-- A run, by induction on its operations. -/
theorem run : ∀ {ops : List Op} {n : ℕ} {w v : Firmware}, Reachable w →
    (∀ op ∈ ops, op.Allowed ∧ op.Exact) → Paced 12 n ops → Behind n w → n ≤ 12 →
    Runs.run Op.run ops w = some v → Behind (ops.foldl Op.since n) v ∧ ops.foldl Op.since n ≤ 12 := by
  intro ops
  induction ops with
  | nil =>
    intro n w v _ _ _ h hn hrun
    rw [← run_nil.mp hrun]
    exact ⟨h, hn⟩
  | cons op ops ih =>
    intro n w v hw hops hpaced h hn hrun
    obtain ⟨u, hfirst, hrest⟩ := run_cons.mp hrun
    obtain ⟨⟨ha, hexact⟩, hothers⟩ := List.forall_mem_cons.mp hops
    obtain ⟨es, hsound⟩ := hw.sound
    exact ih (.step hw ha hfirst) hothers hpaced.2 (h.op hsound ha hexact hn hfirst) hpaced.1 hrest

end Behind

/-! ## Junk -/

/-- Thirteen bytes come in that are no header, nor part of one, and there is an update. -/
def junkRound (io : Transport) : List Op := [.arrive (List.replicate 13 1), .update io]

/-- **A byte is left behind** in a round. -/
theorem junk_round {io : Transport} (hio : io.Exact) {k : ℕ} (h : Reachable w)
    (hstatus : w.dashboard.packetStatus = .waiting) (hincoming : w.incoming = List.replicate k 1) :
    ∃ v, run Op.run (junkRound io) w = some v ∧ v.dashboard.packetStatus = .waiting ∧
      v.incoming = List.replicate (k + 1) 1 := by
  set u : Firmware := w.feed (List.replicate 13 1) with hu
  have hjunk : u.incoming = List.replicate (k + 13) 1 := by
    have hfeed : u.incoming = w.incoming ++ List.replicate 13 1 := rfl
    rw [hfeed, hincoming, List.replicate_append_replicate]
  have hlen : 12 < u.incoming.length := by
    rw [hjunk, List.length_replicate]
    omega
  have hrefused : ¬ Admits u.incoming := by
    have hfront : u.incoming.take 12 = (List.replicate 12 (1 : Byte)).take 12 := by
      rw [hjunk, List.take_replicate, List.take_replicate, Nat.min_eq_left (by omega)]
      rfl
    rw [admits_congr hfront]
    decide +kernel
  have hready : u.headerReady io := ⟨hstatus, hio.ready false (by decide) (by omega) hlen⟩
  have hfirst : u.afterHeader io = u.takeHeader := if_pos hready
  have hwaiting : u.takeHeader.dashboard.packetStatus = .waiting := by
    rw [dashboard_takeHeader hlen, if_neg hrefused]
    exact hstatus
  have hupdate : u.update io = u.takeHeader := by
    rw [Firmware.update, hfirst, if_neg fun hpayload => by cases hwaiting.symm.trans hpayload.1]
  obtain ⟨es, hsound⟩ := h.sound
  obtain ⟨status, hrun⟩ := dashboardUpdate_eq io (hsound.feed (List.replicate 13 1))
  refine ⟨u.takeHeader, ?_, hwaiting, ?_⟩
  · rw [← hupdate]
    exact run_cons.mpr ⟨u, rfl, run_cons.mpr ⟨_, congrArg (Option.map Prod.snd) hrun, rfl⟩⟩
  · rw [incoming_takeHeader, hjunk, List.drop_replicate]
    rfl

theorem junk_rounds {io : Transport} (hio : io.Exact) : ∀ (n : ℕ) {k : ℕ} {w : Firmware},
    Reachable w → w.dashboard.packetStatus = .waiting → w.incoming = List.replicate k 1 →
    ∃ v, run Op.run (List.replicate n (junkRound io)).flatten w = some v ∧
      v.incoming = List.replicate (k + n) 1 := by
  intro n
  induction n with
  | zero => exact fun _ _ hincoming => ⟨_, rfl, hincoming⟩
  | succ n ih =>
    intro k w h hstatus hincoming
    obtain ⟨u, hfirst, hwaiting, hleft⟩ := junk_round hio h hstatus hincoming
    have hu : Reachable u := h.run (by simp [junkRound, Op.Allowed]) hfirst
    obtain ⟨v, hrest, hend⟩ := ih hu hwaiting hleft
    refine ⟨v, ?_, ?_⟩
    · rw [List.replicate_succ, List.flatten_cons]
      exact run_append.mpr ⟨u, hfirst, hrest⟩
    · rw [hend, Nat.add_right_comm, Nat.add_assoc]

theorem paced_junk (io : Transport) : ∀ n : ℕ,
    Paced 13 0 (List.replicate n (junkRound io)).flatten := by
  intro n
  induction n with
  | zero => trivial
  | succ n ih =>
    rw [List.replicate_succ, List.flatten_cons]
    exact ⟨le_refl 13, Nat.zero_le 13, ih⟩

/-! ## Keeping up -/

/-- **Keeping up.** In a run of allowed operations from any quiet state that the firmware can
reach, in which updates are told of all that has come in and no more than twelve bytes come in
between two of them, there are never more than 99 bytes to be read, and the next update would
leave nothing behind that a further one could read. With thirteen bytes between two updates
there is no bound at all to what is left to be read. -/
theorem keeps_up (h : Reachable w) (hquiet : Quiet w) :
    (∀ (ops : List Op) (v : Firmware), (∀ op ∈ ops, op.Allowed ∧ op.Exact) → Paced 12 0 ops →
      run Op.run ops w = some v → v.incoming.length ≤ 99 ∧
        ∀ io : Transport, io.Exact → ∃ u, Op.run (.update io) v = some u ∧ Quiet u) ∧
    (Idle w → ∀ n : ℕ, ∃ (ops : List Op) (v : Firmware), (∀ op ∈ ops, op.Allowed ∧ op.Exact) ∧
      Paced 13 0 ops ∧ run Op.run ops w = some v ∧ v.incoming.length = n) := by
  obtain ⟨es, hsound⟩ := h.sound
  constructor
  · intro ops v hops hpaced hrun
    have hstart := (behind_zero_iff hsound h.listening).mpr hquiet
    obtain ⟨hbehind, hn⟩ := hstart.run h hops hpaced (Nat.zero_le 12) hrun
    have hv : Reachable v := h.run (fun op hop => (hops op hop).1) hrun
    obtain ⟨es', hsound'⟩ := hv.sound
    refine ⟨?_, fun io hio => ?_⟩
    · rcases hbehind with ⟨-, hle⟩ | ⟨hstatus, hlt⟩
      · omega
      · have hfits : 12 + payloadSize v.rxBuffer.data + 4 ≤ 100 := (hsound'.header hstatus).2
        omega
    · obtain ⟨status, hupdate⟩ := dashboardUpdate_eq io hsound'
      refine ⟨v.update io, congrArg (Option.map Prod.snd) hupdate, ?_⟩
      exact (behind_zero_iff (hsound'.update io) (hv.listening.steps (steps_update v io))).mp
        (hbehind.update hio hsound' hn)
  · intro hidle n
    have hio := Transport.exact_exact fun _ _ => true
    obtain ⟨v, hrun, hleft⟩ := junk_rounds hio n (k := 0) h hidle.waiting hidle.empty
    refine ⟨_, v, fun op hop => ?_, paced_junk _ n, hrun, ?_⟩
    · obtain ⟨round, hround, hop⟩ := List.mem_flatten.mp hop
      rw [List.eq_of_mem_replicate hround] at hop
      rcases List.mem_cons.mp hop with rfl | hop
      · exact ⟨trivial, trivial⟩
      · obtain rfl := List.mem_singleton.mp hop
        exact ⟨trivial, hio⟩
    · rw [hleft, List.length_replicate, Nat.zero_add]

/-- A request that comes in while the program goes on, and a thousand bytes that are left. -/
theorem keeps_up_request :
    (∃ v : Firmware, run Op.run [.arrive (request.bytes.take 12), .update openTransport,
        .send openTransport (.alert (literal "hot")), .arrive (request.bytes.drop 12),
        .assign 0 3] oneVariable = some v ∧ v.incoming.length ≤ 99 ∧
      ∀ io : Transport, io.Exact → ∃ u, Op.run (.update io) v = some u ∧ Quiet u) ∧
    ∃ (ops : List Op) (v : Firmware), (∀ op ∈ ops, op.Allowed ∧ op.Exact) ∧
      Paced 13 0 ops ∧ run Op.run ops oneVariable = some v ∧ v.incoming.length = 1000 := by
  obtain ⟨es, hsound⟩ := reachable_oneVariable.sound
  have hidle : Idle oneVariable := ⟨reachable_oneVariable, rfl, rfl⟩
  obtain ⟨hbound, hjunk⟩ := keeps_up hidle.reachable 
    (quiet_of_short hsound hidle.waiting (hidle.empty ▸ Nat.zero_le 12))
  have hops : ∀ op ∈ [Op.arrive (request.bytes.take 12), .update openTransport,
      .send openTransport (.alert (literal "hot")), .arrive (request.bytes.drop 12), .assign 0 3],
      op.Allowed ∧ op.Exact := by
    simp only [List.forall_mem_cons, Op.Allowed, Op.Exact, true_and, and_true]
    exact ⟨Transport.exact_exact _, by decide, fun _ hop => absurd hop List.not_mem_nil⟩
  obtain ⟨v, hrun⟩ := reachable_oneVariable.exists_run fun op hop => (hops op hop).1
  have hpaced : Paced 12 0 [Op.arrive (request.bytes.take 12), .update openTransport,
      .send openTransport (.alert (literal "hot")), .arrive (request.bytes.drop 12), .assign 0 3] :=
    ⟨by decide, by decide, by decide, by decide, by decide, trivial⟩
  exact ⟨⟨v, hrun, hbound _ v hops hpaced hrun⟩, hjunk hidle 1000⟩

end Houston
