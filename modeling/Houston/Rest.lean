import Houston.Loop

/-!
# Coming to rest

As long as no read and no write has failed, the two programs can finish what the user has given
them: left alone, they write, read, process and dispatch, until nothing is on its way any more.

* `Transmitter.load` — what the producer has still to do, and how each of its steps lowers it.
* `Loop.Works` — the invariant, and that nothing has failed.
* `Loop.Works.goes_down` — some step that needs no user leads on, or all is at rest.
* `Loop.comes_to_rest` — then all that the user has given was carried out, once and in order.
-/

namespace Houston

open Runs

namespace Transmitter

variable {s t : Transmitter Numbered}

/-- What is still to be done with the packets: each one is posted, queued, and written; and the
bytes that are written are to be read. -/
def load (s : Transmitter Numbered) : ℕ :=
  3 * s.unposted.length + 2 * s.posted.length + s.txQueue.length + 2 * (bytesOf s.unwritten).length

/-- A packet is posted. -/
theorem load_post {i : ℕ} (hsending : s.sending = some i) (hi : i < s.txData.length) :
    ∃ t, step .post s = some t ∧ t.load < s.load ∧ t.port = s.port := by
  have hunposted : s.unposted = s.txData[i] :: s.txData.drop (i + 1) := by
    rw [unposted, hsending, Option.getD_some, List.drop_eq_getElem_cons hi]
  refine ⟨{ s with sending := some (i + 1), posted := s.posted ++ [s.txData[i]] }, ?_, ?_, rfl⟩
  · rw [step, hsending, Option.bind_eq_bind, Option.bind_some, List.getElem?_eq_getElem hi]
    rfl
  · have hsame : s.posted ++ [s.txData[i]] ++ s.txData.drop (i + 1) = s.posted ++ s.unposted := by
      rw [hunposted, List.append_assoc, List.singleton_append]
    have hafter : load { s with sending := some (i + 1), posted := s.posted ++ [s.txData[i]] } =
        3 * (s.txData.drop (i + 1)).length + 2 * (s.posted ++ [s.txData[i]]).length +
          s.txQueue.length + 2 * (bytesOf (s.txQueue ++
            (s.posted ++ [s.txData[i]] ++ s.txData.drop (i + 1)))).length := rfl
    rw [hafter, hsame, load, unwritten, hunposted, List.length_append, List.length_singleton,
      List.length_cons]
    omega

/-- `txData` is cleared when all packets are posted. -/
theorem load_clear {i : ℕ} (hsending : s.sending = some i) (hi : ¬ i < s.txData.length) :
    step .clear s = some { s with txData := [], sending := none } ∧
      load { s with txData := [], sending := none } = s.load := by
  have hunposted : s.unposted = [] := by
    rw [unposted, hsending, Option.getD_some]
    exact List.drop_eq_nil_of_le (Nat.le_of_not_lt hi)
  constructor
  · rw [step, hsending, Option.bind_eq_bind, Option.bind_some, if_neg hi]
  · rw [load, load, unwritten, unwritten, hunposted]
    rfl

/-- A call of `send_data` begins with nothing posted. -/
theorem load_begin (hsending : s.sending = none) : load { s with sending := some 0 } = s.load := by
  rw [load, load, unwritten, unwritten, unposted, unposted, hsending]
  rfl

/-- A handler runs. -/
theorem load_handle {data : Numbered} {rest : List Numbered} (hposted : s.posted = data :: rest) :
    ∃ t, step .handle s = some t ∧ t.load < s.load ∧ t.port = s.port := by
  have hsame : s.unwritten = (s.txQueue ++ [data]) ++ (rest ++ s.unposted) := by
    rw [unwritten, hposted, List.append_assoc, List.singleton_append, List.cons_append]
  have hstep : step .handle s = handle data { s with posted := rest } := by
    rw [step, hposted]
  have hload : ∀ t : Transmitter Numbered, t.txQueue = s.txQueue ++ [data] → t.posted = rest →
      t.unposted = s.unposted → t.load < s.load := by
    intro t hqueue hrest hunposted
    rw [load, load, unwritten, hsame, hqueue, hrest, hunposted, hposted, List.length_append,
      List.length_singleton, List.length_cons]
    omega
  rw [hstep, handle_eq]
  refine ⟨_, rfl, ?_, ?_⟩
  · simp only
    split_ifs with hempty
    · exact hload _ (by rw [hempty]; rfl) rfl rfl
    · exact hload _ rfl rfl rfl
  · simp only
    split_ifs <;> rfl

/-- A write ends, and its bytes are on their way. -/
theorem load_complete (hbusy : s.Busy) (hqueue : s.txQueue ≠ []) :
    ∃ packet t, step (.complete 0 false) s = some t ∧ t.port = s.port ++ [packet] ∧
      t.load + 2 * packet.1.length < s.load := by
  obtain ⟨packet, rest, hcons⟩ := List.exists_cons_of_ne_nil hqueue
  have hwrites : s.writes = [packet] := by
    rw [hbusy, hcons]
    rfl
  have hwritten := written_eq (s := { s with
    writes := s.writes.eraseIdx 0, port := s.port ++ [packet] }) hcons
  refine ⟨packet, { s with
    txQueue := rest, writes := rest.head?.toList, port := s.port ++ [packet] }, ?_, rfl, ?_⟩
  · rw [step, hwrites]
    rw [hwrites] at hwritten
    exact hwritten
  · have hafter : load { s with
        txQueue := rest, writes := rest.head?.toList, port := s.port ++ [packet] } =
        3 * s.unposted.length + 2 * s.posted.length + rest.length +
          2 * (bytesOf (rest ++ (s.posted ++ s.unposted))).length := rfl
    have hbytes : bytesOf s.unwritten = packet.1 ++ bytesOf (rest ++ (s.posted ++ s.unposted)) := by
      rw [unwritten, hcons]
      rfl
    rw [hafter, load, hbytes, hcons, List.length_append, List.length_cons]
    omega

end Transmitter

namespace Loop

variable {es : List Entry} {s₀ s t : Loop} {e : Step} {h : History} {given : List Command}

/-! ## Nothing has failed -/

/-- No read fails, and no write. -/
def Step.Unfailing : Step → Prop
  | .fail | .broken _ _ => False
  | .app (.complete _ error) => error = false
  | _ => True

/-- A step that needs neither the user nor the program on the board, which only polls. -/
def Step.Unattended : Step → Prop
  | .board op => ∃ io, op = .update io
  | .fail | .broken _ _ => False
  | .app (.control _ _ _) => False
  | .app (.telemetry input) => input = Application.noInput
  | .app (.alert clear) => clear = false
  | .app (.liveData actions refresh) => actions = [] ∧ refresh = false
  | .app (.complete _ error) => error = false
  | _ => True

/-- Left alone, nothing is written to the variables, and nobody gives a command. -/
theorem Step.Unattended.spec (h : e.Unattended) :
    e.Allowed ∧ e.Unfailing ∧ e.assigned = [] ∧ ∀ s, commands e s = [] := by
  cases e with
  | board op =>
    obtain ⟨io, rfl⟩ := h
    exact ⟨⟨trivial, trivial⟩, trivial, rfl, fun _ => rfl⟩
  | fail => exact h.elim
  | broken => exact h.elim
  | app e =>
    cases e with
    | control => exact h.elim
    | liveData actions refresh =>
      obtain ⟨rfl, rfl⟩ := h
      exact ⟨trivial, trivial, rfl, fun _ => rfl⟩
    | complete k error => exact ⟨trivial, h, rfl, fun _ => rfl⟩
    | _ => exact ⟨trivial, trivial, rfl, fun _ => rfl⟩
  | _ => exact ⟨trivial, trivial, rfl, fun _ => rfl⟩

/-- **Nothing has failed**: the invariant holds, a read is outstanding, and the front of `tx_queue_`
is being written. -/
structure Works (es : List Entry) (s₀ s : Loop) : Prop where
  inv : ∃ h given, Inv es s₀ h given s
  reading : s.receiver.reading = true
  busy : s.app.link.Busy

theorem Begins.works (hb : Begins es s₀) : Works es s₀ s₀ := by
  obtain ⟨given, hi⟩ := hb.inv
  obtain ⟨packets, -, -, hlink, -⟩ := hb.app
  refine ⟨⟨_, _, hi⟩, ?_, ?_⟩
  · rw [hb.receiver]
    rfl
  · rw [hlink]
    rfl

/-- The front of the queue is still being written after a step of the application. -/
theorem busy_step {e' : Application.Step} {a b : Application} {l : Application.Log}
    (hs : a.Tracks l) (hcalm : e'.Calm) (hunfailing : ∀ k, e' ≠ .complete k true)
    (hbusy : a.link.Busy) (hstep : Application.step e' a = some b) : b.link.Busy := by
  rcases Application.step_link hs hcalm hstep with ⟨move, -, hmove, -, hsame⟩ | ⟨-, new, -, hlink, -⟩
  · rcases (hbusy.step hmove).2 with ⟨hkept, -⟩ | ⟨-, k, rfl⟩
    · exact hkept
    · exact absurd (hsame k true rfl) (hunfailing k)
  · rw [hlink]
    exact hbusy

theorem Works.step (hb : Begins es s₀) (hw : Works es s₀ s) (hallowed : e.Allowed)
    (hunfailing : e.Unfailing) (hstep : step e s = some t) : Works es s₀ t := by
  obtain ⟨h, given, hi⟩ := hw.inv
  obtain ⟨effects, more, new, ht, -⟩ := hi.step hb hallowed hstep
  suffices hkept : t.receiver.reading = true ∧ t.app.link.Busy from ⟨⟨_, _, ht⟩, hkept.1, hkept.2⟩
  obtain ⟨l, hs, -⟩ := hi.app
  cases e with
  | board op =>
    obtain ⟨v, -, hstep⟩ := Option.bind_eq_some_iff.mp hstep
    cases hstep
    exact ⟨hw.reading, hw.busy⟩
  | arrive n =>
    cases hstep
    exact ⟨hw.reading, hw.busy⟩
  | read n =>
    obtain ⟨receiver, hread, hstep⟩ := Option.bind_eq_some_iff.mp hstep
    cases hstep
    rw [Receiver.step] at hread
    split_ifs at hread
    cases hread
    exact ⟨hw.reading, hw.busy⟩
  | complete =>
    obtain ⟨receiver, hread, hstep⟩ := Option.bind_eq_some_iff.mp hstep
    cases hstep
    rw [Receiver.step] at hread
    split_ifs at hread
    cases hread
    exact ⟨(Receiver.reading_handle _).trans hw.reading, hw.busy⟩
  | fail => exact hunfailing.elim
  | frame =>
    obtain ⟨receiver, hreceiver, hframe⟩ := Option.bind_eq_some_iff.mp hstep
    obtain ⟨app, happ, hframe⟩ := Option.bind_eq_some_iff.mp hframe
    cases hframe
    rw [run_produce hi.batch] at hreceiver
    cases hreceiver
    have hcalm : (Application.Step.control false false s.receiver.rxQueue).Calm := rfl
    exact ⟨hw.reading, busy_step hs hcalm (fun k heq => by cases heq) hw.busy happ⟩
  | app e' =>
    obtain ⟨app, happ, hstep⟩ := Option.bind_eq_some_iff.mp hstep
    cases hstep
    refine ⟨hw.reading, busy_step hs ?_ ?_ hw.busy happ⟩
    · cases e' with
      | control => exact hallowed.elim
      | _ => trivial
    · rintro k rfl
      cases hunfailing
  | broken => exact hunfailing.elim

theorem Works.run (hb : Begins es s₀) {steps : List Step} (hw : Works es s₀ s)
    (hallowed : ∀ e ∈ steps, e.Allowed) (hunfailing : ∀ e ∈ steps, e.Unfailing)
    (hrun : Runs.run Loop.step steps s = some t) : Works es s₀ t :=
  run_meets (P := fun e _ => e.Allowed ∧ e.Unfailing)
    (fun he hw hstep => hw.step hb he.1 he.2 hstep)
    (meets_of_forall s fun e he _ => ⟨hallowed e he, hunfailing e he⟩) hw hrun

/-! ## Going down -/

/-- What is still to be written, to come in, and to be read by the firmware. -/
def descent (s : Loop) : ℕ := s.app.link.load + 2 * s.down.length + s.board.incoming.length

/-- Another frame is needed: to dispatch what is in the queue, or to post what is in `txData`. -/
def Waits (s : Loop) : Prop :=
  s.receiver.rxQueue ≠ [] ∨ s.app.phase ≠ .sending ∧ s.app.link.txData ≠ []

instance (s : Loop) : Decidable (Waits s) := inferInstanceAs (Decidable (_ ∨ _))

/-- How many panels there are before the control panel. -/
def position : Phase → ℕ
  | .control => 0
  | .sending => 4
  | .telemetry => 3
  | .alert => 2
  | .liveData => 1

/-- Or before it is rendered once more, if another frame is needed. -/
def place (s : Loop) : ℕ := position s.app.phase + if s.Waits then 5 else 0

theorem place_le (s : Loop) : s.place ≤ 9 := by
  have hposition : position s.app.phase ≤ 4 := by
    cases s.app.phase <;> decide
  rw [place]
  split_ifs <;> omega

/-- What is still to come in at the host, to be cut into lines, and to be dispatched. -/
def ascent (s : Loop) : ℕ := 20 * (2 * s.up.length + s.receiver.readBuffer.length) + s.place

/-- Less is left to be done; what the firmware says does not count as long as it has to read. -/
def Below (t s : Loop) : Prop :=
  t.descent < s.descent ∨ t.descent = s.descent ∧ t.ascent < s.ascent

theorem wellFounded_below : WellFounded Below := by
  have hlex : WellFounded (InvImage (Prod.Lex (· < ·) (· < ·)) fun s : Loop =>
      (s.descent, s.ascent)) :=
    InvImage.wf _ (WellFounded.prod_lex Nat.lt_wfRel.wf Nat.lt_wfRel.wf)
  have hsub : ∀ {t s : Loop}, Below t s → Prod.Lex (· < ·) (· < ·) (t.descent, t.ascent)
      (s.descent, s.ascent) := fun h => Prod.lex_def.mpr h
  exact Subrelation.wf hsub hlex

/-- Nothing is on its way. -/
structure Still (s : Loop) : Prop where
  unwritten : s.app.link.unwritten = []
  down : s.down = []
  quiet : Quiet s.board
  up : s.up = []
  readBuffer : (0 : Byte) ∉ s.receiver.readBuffer
  rxQueue : s.receiver.rxQueue = []

/-- **All is at rest**: nothing is on its way, and the control panel is next. -/
structure AtRest (s : Loop) : Prop extends Still s where
  phase : s.app.phase = .control

/-- A step of the application that writes nothing. -/
theorem step_app {e' : Application.Step} {app : Application}
    (happ : Application.step e' s.app = some app) (hport : app.link.port = s.app.link.port) :
    step (.app e') s = some { s with app := app } := by
  have hnone : s.down ++ Transmitter.bytesOf (app.link.port.drop s.app.link.port.length) = s.down := by
    rw [hport, List.drop_length]
    exact List.append_nil _
  rw [step, happ, Option.bind_eq_bind, Option.bind_some]
  simp only [hnone]

/-- **On the way down** packets are posted and written, and the firmware reads. -/
theorem Works.exists_down (hw : Works es s₀ s)
    (hleft : s.app.link.posted ≠ [] ∨ s.app.link.txQueue ≠ [] ∨ s.down ≠ [] ∨ ¬ Quiet s.board) :
    ∃ e t, Step.Unattended e ∧ Loop.step e s = some t ∧ t.descent < s.descent := by
  rcases hleft with hposted | hqueue | hdown | hquiet
  · obtain ⟨data, rest, hcons⟩ := List.exists_cons_of_ne_nil hposted
    obtain ⟨link, hlink, hload, hport⟩ := Transmitter.load_handle hcons
    have happ : Application.step .handle s.app = some { s.app with link := link } :=
      Option.bind_eq_some_iff.mpr ⟨link, hlink, rfl⟩
    refine ⟨.app .handle, _, trivial, step_app happ hport, ?_⟩
    rw [descent, descent]
    exact Nat.add_lt_add_right (Nat.add_lt_add_right hload _) _
  · obtain ⟨packet, link, hlink, hport, hload⟩ := Transmitter.load_complete hw.busy hqueue
    have happ : Application.step (.complete 0 false) s.app = some { s.app with link := link } :=
      Option.bind_eq_some_iff.mpr ⟨link, hlink, rfl⟩
    refine ⟨.app (.complete 0 false), _, rfl, Option.bind_eq_some_iff.mpr ⟨_, happ, rfl⟩, ?_⟩
    have hwritten : Transmitter.bytesOf (link.port.drop s.app.link.port.length) = packet.1 := by
      rw [hport, List.drop_left]
      exact List.append_nil _
    rw [descent, descent]
    simp only [hwritten, List.length_append]
    omega
  · refine ⟨.arrive s.down.length, _, trivial, rfl, ?_⟩
    have hpos := List.length_pos_iff.mpr hdown
    have hboard : (s.board.feed (s.down.take s.down.length)).incoming.length =
        s.board.incoming.length + s.down.length := by
      rw [List.take_length]
      exact List.length_append
    rw [descent, descent, hboard]
    simp only [List.drop_length, List.length_nil]
    omega
  · obtain ⟨h, given, hi⟩ := hw.inv
    obtain ⟨ahead, lost, -, hobeys, -⟩ := hi.obeys
    have hstuck : ∃ v, ReadStep s.board v := by
      by_contra hnone
      exact hquiet ((quiet_iff hobeys.sound).mpr fun v hstep => hnone ⟨v, hstep⟩)
    obtain ⟨v, hstep⟩ := hstuck
    obtain ⟨status, hrun⟩ := dashboardUpdate_eq (.exact fun _ _ => true) hobeys.sound
    have hboard : Op.run (.update (.exact fun _ _ => true)) s.board =
        some (s.board.update (.exact fun _ _ => true)) := congrArg (Option.map Prod.snd) hrun
    refine ⟨.board (.update _), _, ⟨_, rfl⟩, Option.bind_eq_some_iff.mpr ⟨_, hboard, rfl⟩, ?_⟩
    have hshort := update_shorter (Transport.exact_exact fun _ _ => true) hstep
    rw [descent, descent]
    exact Nat.add_lt_add_left hshort _

/-- A line is cut off. -/
theorem length_readBuffer_handle {r : Receiver} (hzero : (0 : Byte) ∈ r.readBuffer) :
    r.handle.readBuffer.length < r.readBuffer.length := by
  obtain ⟨line, rest, hbuf, hz⟩ := List.eq_append_cons_of_mem hzero
  rw [Receiver.readBuffer_handle hz hbuf, hbuf, List.length_append, List.length_cons]
  omega

/-- **On the way up** the host reads. -/
theorem Works.exists_up (hw : Works es s₀ s) (hleft : (0 : Byte) ∈ s.receiver.readBuffer ∨ s.up ≠ []) :
    ∃ e t, Step.Unattended e ∧ Loop.step e s = some t ∧ t.descent = s.descent ∧ t.ascent < s.ascent := by
  by_cases hzero : (0 : Byte) ∈ s.receiver.readBuffer
  · have hstep : Receiver.step .complete s.receiver = some s.receiver.handle :=
      if_pos ⟨hw.reading, hzero⟩
    refine ⟨.complete, _, trivial, Option.bind_eq_some_iff.mpr ⟨_, hstep, rfl⟩, rfl, ?_⟩
    have hshort := length_readBuffer_handle hzero
    have hplace := place_le { s with receiver := s.receiver.handle }
    rw [ascent, ascent]
    simp only
    omega
  · have hup : s.up ≠ [] := hleft.resolve_left hzero
    have hstep : Receiver.step (.read (s.up.take s.up.length)) s.receiver =
        some { s.receiver with readBuffer := s.receiver.readBuffer ++ s.up.take s.up.length } :=
      if_pos ⟨hw.reading, hzero⟩
    refine ⟨.read s.up.length, _, trivial, Option.bind_eq_some_iff.mpr ⟨_, hstep, rfl⟩, rfl, ?_⟩
    have hpos := List.length_pos_iff.mpr hup
    have hplace : ∀ readBuffer up, place { s with
        receiver := { s.receiver with readBuffer := readBuffer }, up := up } = s.place :=
      fun _ _ => rfl
    rw [ascent, ascent, hplace]
    simp only [List.take_length, List.drop_length, List.length_append, List.length_nil]
    omega

/-- A panel that leaves the packets alone, and is followed by the next one. -/
theorem below_of_panel {app : Application} {p q : Phase} (hlink : app.link = s.app.link)
    (hfrom : s.app.phase = p) (hto : app.phase = q) (hsending : p ≠ .sending ∧ q ≠ .sending)
    (hnext : position q < position p) : Below { s with app := app } s := by
  have hwaits : Waits { s with app := app } ↔ s.Waits := by
    rw [Waits, Waits]
    simp only [hfrom, hto, hlink, hsending.1, hsending.2, ne_eq, not_false_eq_true]
  have hplace : place { s with app := app } < s.place := by
    rw [place, place, hfrom]
    simp only [hwaits, hto]
    exact Nat.add_lt_add_right hnext _
  refine Or.inr ⟨?_, ?_⟩
  · rw [descent, descent, hlink]
  · rw [ascent, ascent]
    exact Nat.add_lt_add_left hplace _

/-- **Round and round** go the frames, as long as there is something to dispatch or to post. -/
theorem Works.exists_on (hw : Works es s₀ s) (hleft : s.app.phase ≠ .control ∨ s.Waits) :
    ∃ e t, Step.Unattended e ∧ Loop.step e s = some t ∧ Below t s := by
  obtain ⟨h, given, hi⟩ := hw.inv
  obtain ⟨l, hs, -, hin, -⟩ := hi.app
  obtain ⟨telemetry, alerts, responses, shown, hserves, -⟩ := hs.panels
  cases hphase : s.app.phase with
  | control =>
    have hwaits : s.Waits := hleft.resolve_left fun hnot => hnot hphase
    -- the queue is empty afterwards, and the packets are about to be posted: nothing waits
    obtain ⟨app, hstep, -, hphase', hlink⟩ := hi.frame hphase
    have hsending : s.app.link.sending = none := hi.settled.mpr (hphase ▸ nofun)
    refine ⟨.frame, _, trivial, hstep, Or.inr ⟨?_, ?_⟩⟩
    · rw [descent, descent]
      simp only [hlink, Transmitter.load_begin hsending]
    · have hdone : ∀ r : Loop, r.app.phase = .sending → r.receiver.rxQueue = [] → r.place = 4 := by
        intro r hr hqueue
        rw [place, hr, if_neg fun h => h.elim (absurd hqueue) fun h => h.1 hr]
        rfl
      rw [ascent, ascent, hdone _ hphase' rfl, place, hphase, if_pos hwaits]
      exact Nat.add_lt_add_left (Nat.lt_succ_self 4) _
  | sending =>
    cases hsending : s.app.link.sending with
    | none => exact absurd hphase (hi.settled.mp hsending)
    | some i =>
      by_cases hlt : i < s.app.link.txData.length
      · obtain ⟨link, hpost, hload, hport⟩ := Transmitter.load_post hsending hlt
        have happ : Application.step .post s.app = some { s.app with link := link } := by
          rw [Application.step, if_pos hphase]
          exact Option.bind_eq_some_iff.mpr ⟨link, hpost, rfl⟩
        refine ⟨.app .post, _, trivial, step_app happ hport, Or.inl ?_⟩
        rw [descent, descent]
        exact Nat.add_lt_add_right (Nat.add_lt_add_right hload _) _
      · obtain ⟨hclear, hload⟩ := Transmitter.load_clear hsending hlt
        have happ : Application.step .clear s.app = some { s.app with
            phase := .telemetry
            link := { s.app.link with txData := [], sending := none } } := by
          rw [Application.step, if_pos hphase]
          exact Option.bind_eq_some_iff.mpr ⟨_, hclear, rfl⟩
        refine ⟨.app .clear, _, trivial, step_app happ rfl, Or.inr ⟨?_, ?_⟩⟩
        · rw [descent, descent, hload]
        · rw [ascent, ascent, place, place, hphase]
          simp only [Waits, hphase, ne_eq, not_true_eq_false, and_false, false_and, or_false]
          exact Nat.add_lt_add_left (Nat.add_lt_add_right (Nat.lt_succ_self 3) _) _
  | telemetry =>
    obtain ⟨app, happ, -⟩ := hin.telemetry hphase Application.noInput
    have hinv := happ
    rw [Application.step, if_pos hphase] at hinv
    obtain ⟨⟨panel, host⟩, hrender, hinv⟩ := Option.bind_eq_some_iff.mp hinv
    obtain rfl := hserves.render_telemetry hrender
    cases hinv
    have hlink := Application.link_setHost_same (s := s.app)
      (h := s.app.host.setConsumer 1 (.telemetry [])) rfl
    exact ⟨.app (.telemetry Application.noInput), _, rfl,
      step_app happ (congrArg Transmitter.port hlink),
      below_of_panel (q := .alert) hlink hphase rfl (by decide) (by decide)⟩
  | alert =>
    have happ : Application.step (.alert false) s.app = some
        { s.app.setHost (s.app.host.setConsumer 0 (.alert [])) with
          alertPanel := ⟨s.app.alertPanel.alerts ++ alerts⟩
          phase := .liveData } := by
      rw [Application.step, if_pos hphase, hserves.render_alert false]
      rfl
    have hlink := Application.link_setHost_same (s := s.app)
      (h := s.app.host.setConsumer 0 (.alert [])) rfl
    exact ⟨.app (.alert false), _, rfl, step_app happ (congrArg Transmitter.port hlink),
      below_of_panel (q := .liveData) hlink hphase rfl (by decide) (by decide)⟩
  | liveData =>
    have happ : Application.step (.liveData [] false) s.app = some
        { s.app.setHost (s.app.host.setConsumer 2 (.liveData [])) with
          liveDataPanel := responses.flatten.foldl LiveDataPanel.takeRecord s.app.liveDataPanel
          phase := .control } := by
      rw [Application.step, if_pos hphase,
        Application.renderLiveData_eq (hserves.takeIn s.app.liveDataPanel)]
      rfl
    have hlink := Application.link_setHost_same (s := s.app)
      (h := s.app.host.setConsumer 2 (.liveData [])) rfl
    exact ⟨.app (.liveData [] false), _, ⟨rfl, rfl⟩, step_app happ (congrArg Transmitter.port hlink),
      below_of_panel (q := .control) hlink hphase rfl (by decide) (by decide)⟩

/-- **Some step leads on**, and no user is needed for it, unless all is at rest. -/
theorem Works.goes_down (hb : Begins es s₀) (hw : Works es s₀ s) (hrest : ¬ AtRest s) :
    ∃ e t, Step.Unattended e ∧ Loop.step e s = some t ∧ Works es s₀ t ∧ Below t s := by
  suffices hstep : ∃ e t, Step.Unattended e ∧ Loop.step e s = some t ∧ Below t s by
    obtain ⟨e, t, he, hstep, hbelow⟩ := hstep
    exact ⟨e, t, he, hstep, hw.step hb he.spec.1 he.spec.2.1 hstep, hbelow⟩
  -- down, up, and round, in this order: what is written may make the firmware say more
  by_cases hdown : s.app.link.posted ≠ [] ∨ s.app.link.txQueue ≠ [] ∨ s.down ≠ [] ∨ ¬ Quiet s.board
  · obtain ⟨e, t, he, hstep, hlt⟩ := hw.exists_down hdown
    exact ⟨e, t, he, hstep, Or.inl hlt⟩
  by_cases hup : (0 : Byte) ∈ s.receiver.readBuffer ∨ s.up ≠ []
  · obtain ⟨e, t, he, hstep, hboth⟩ := hw.exists_up hup
    exact ⟨e, t, he, hstep, Or.inr hboth⟩
  refine hw.exists_on ?_
  by_contra hon
  simp only [not_or, not_not, ne_eq, Waits, not_and] at hdown hup hon
  obtain ⟨hposted, hqueue, hdown, hquiet⟩ := hdown
  obtain ⟨hphase, hrx, htx⟩ := hon
  have htxData : s.app.link.txData = [] := htx (by rw [hphase]; decide)
  refine hrest ⟨⟨?_, hdown, hquiet, hup.2, hup.1, hrx⟩, hphase⟩
  rw [Transmitter.unwritten, Transmitter.unposted, hqueue, hposted, htxData, List.drop_nil]
  rfl

/-! ## At rest -/

/-- Left alone, nobody gives a command, and nothing is written to the variables. -/
theorem outputs_unattended {steps : List Step} (s : Loop) (hsteps : ∀ e ∈ steps, e.Unattended) :
    outputs Loop.step commands steps s = [] ∧ steps.flatMap Step.assigned = [] :=
  ⟨outputs_eq_nil fun e he => (hsteps e he).spec.2.2.2,
    List.flatMap_eq_nil_iff.mpr fun e he => (hsteps e he).spec.2.2.1⟩

/-- **Coming to rest.** In every run of the two programs in which no read and no write has failed,
whatever the user and the program on the board have done, there are steps that need neither of
them and after which all is at rest: everything is written and has come in, the firmware has
nothing left to process, the host nothing to cut off or to dispatch, and the control panel is
next. Then there is one order of the commands and of the writes of the program on the board that
has made the variables what they are, and the commands in it are all that the dispatcher was given;
if the keys of the variables fit a byte, those are, behind the ones from before the session, what
the user has applied or asked for, one for one. -/
theorem comes_to_rest (hb : Begins es s₀) {steps : List Step} (hallowed : ∀ e ∈ steps, e.Allowed)
    (hunfailing : ∀ e ∈ steps, e.Unfailing) (hrun : run step steps s₀ = some s) :
    ∃ more t, (∀ e ∈ more, e.Unattended) ∧ run step more s = some t ∧ t.AtRest ∧
      ∃ effects given new,
        t.board.vars = after es effects s₀.board.vars ∧
        effects.filterMap Effect.assign? = steps.flatMap Step.assigned ∧
        effects.filterMap Effect.command? = given ++ new ∧ Application.Carry s₀.app.link.content given ∧
        ((∀ e ∈ es, Application.lowKey e.key = e.key) → new = outputs step commands steps s₀) := by
  have hw := hb.works.run hb hallowed hunfailing hrun
  -- by induction on what is left to be done
  obtain ⟨more, t, hmore, hrest, -, hend⟩ :=
    run_reaches wellFounded_below (fun r hr hnot => hr.goes_down hb hnot) s hw
  refine ⟨more, t, hmore, hrest, hend, ?_⟩
  have hallowed' : ∀ e ∈ steps ++ more, e.Allowed :=
    List.forall_mem_append.mpr ⟨hallowed, fun e he => (hmore e he).spec.1⟩
  obtain ⟨h, given, new, hstart, hi, hassigned, hnew⟩ :=
    hb.run hallowed' (run_append.mpr ⟨s, hrun, hrest⟩)
  obtain ⟨hnone, hnone'⟩ := outputs_unattended s hmore
  rw [outputs_append hrun, hnone, List.append_nil] at hnew
  rw [List.flatMap_append, hnone', List.append_nil] at hassigned
  obtain ⟨ahead, lost, hgiven, hobeys, hleaves⟩ := hi.obeys
  -- nothing is on the line, and the board is quiet: no command is ahead
  rw [hend.down, hleaves.lost_eq_nil hend.unwritten] at hobeys
  obtain rfl := hobeys.ahead_of_quiet hend.quiet
  rw [List.append_nil] at hgiven
  exact ⟨h.effects, given, new, hobeys.vars, hassigned, hgiven.symm, hstart, hnew⟩

/-- The user has applied a value, and the command is carried out. -/
theorem comes_to_rest_answer : ∃ s more t, run step firstAnswer oneSession = some s ∧
    run step more s = some t ∧ t.AtRest ∧ ∃ effects given,
      t.board.vars = after [⟨0, .uint32, 0⟩] effects oneSession.board.vars ∧
      effects.filterMap Effect.assign? = [(0, 9)] ∧
      effects.filterMap Effect.command? =
        given ++ [.modify ⟨0, ValueType.uint32.bits 16, 5⟩] := by
  obtain ⟨s, hrun, -⟩ := exists_firstAnswer
  have hunfailing : ∀ e ∈ firstAnswer, e.Unfailing := by
    simp [firstAnswer, Step.Unfailing]
  obtain ⟨more, t, -, hmore, hend, effects, given, new, hvars, hassigned, hcommands, -, hnew⟩ :=
    comes_to_rest begins_oneSession allowed_firstAnswer hunfailing hrun
  have houtputs : outputs step commands firstAnswer oneSession =
      [.modify ⟨0, ValueType.uint32.bits 16, 5⟩] := by decide +kernel
  rw [hnew (by decide), houtputs] at hcommands
  exact ⟨s, more, t, hrun, hmore, hend, effects, given, hvars, hassigned, hcommands⟩

end Loop

end Houston
