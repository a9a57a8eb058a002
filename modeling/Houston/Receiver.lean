import Houston.Producer
import Houston.Runs

/-!
# Receiving on the host: `producer/SerialProducer.h`

The thread of the port reads into `read_buffer_` until there is a zero, cuts one line off,
and puts it into `rx_queue_` unless that is full. The thread of the user interface takes
the whole queue away under the lock, and dispatches the packets without it.

* `Receiver.step` — what may happen, in any order.
* `handed_over` — what is dispatched, and what is on its way there, is what was cut off the
  stream, but for the packets that found the queue full.
* `self_synchronising` — how a stream of junk and frames is cut, whatever the reads are.
* `delivered` — what the calls of the firmware put into the queues of the panels, whatever
  the reads and the threads do.
-/

namespace Houston

open Runs Stuffing

/-- The receive side of `SerialProducer`. -/
structure Receiver where
  /-- `read_buffer_` -/
  readBuffer : List Byte
  /-- an `async_read_until` is outstanding -/
  reading : Bool
  /-- `rx_queue_` -/
  rxQueue : List (List Byte)
  /-- what a call of `produce` that is under way has still to dispatch -/
  batch : List (List Byte)
  /-- what was dispatched -/
  dispatched : List (List Byte)
  /-- every packet that was cut off, and how many were in `rx_queue_` then -/
  arrivals : List (List Byte × ℕ)

namespace Receiver

/-- `RX_CAPACITY` -/
def rxCapacity : ℕ := 1024

/-- A producer after its `start`. -/
def start : Receiver where
  readBuffer := []
  reading := true
  rxQueue := []
  batch := []
  dispatched := []
  arrivals := []

/-- The critical section of the handler of `async_read_until`. -/
def push (vec : List Byte) (s : Receiver) : Receiver :=
  let s := { s with arrivals := s.arrivals ++ [(vec, s.rxQueue.length)] }
  if s.rxQueue.length < rxCapacity then { s with rxQueue := s.rxQueue ++ [vec] } else s

/-- The handler of `async_read_until` when there was no error: `std::getline` takes the
bytes up to the zero, and the zero; what is behind stays for the next read. -/
def handle (s : Receiver) : Receiver :=
  let line := s.readBuffer.takeWhile (· ≠ 0)
  let s := { s with readBuffer := (s.readBuffer.dropWhile (· ≠ 0)).tail }
  if line ≠ [] then s.push (line ++ [0]) else s

/-- What may happen: on the thread of the port bytes are read, and the outstanding read
ends, with or without an error; on the thread of the user interface `produce` takes the
queue, and dispatches the packets one after another. -/
inductive Step where
  | read (bytes : List Byte)
  | complete
  | fail
  | swap
  | dispatch

/-- Let it happen. More is read as long as there is no zero, a read completes when there
is one. -/
def step : Step → Receiver → Option Receiver
  | .read bytes, s =>
    if s.reading ∧ 0 ∉ s.readBuffer then some { s with readBuffer := s.readBuffer ++ bytes } else none
  | .complete, s => if s.reading ∧ 0 ∈ s.readBuffer then some s.handle else none
  | .fail, s => if s.reading then some { s with reading := false } else none
  | .swap, s => if s.batch = [] then some { s with batch := s.rxQueue, rxQueue := [] } else none
  | .dispatch, s =>
    match s.batch with
    | [] => none
    | packet :: rest => some { s with batch := rest, dispatched := s.dispatched ++ [packet] }

/-- The bytes that come in with a step. -/
def Step.received : Step → List Byte
  | .read bytes => bytes
  | _ => []

/-- The packets that were put into the queue, from the dispatched ones on. -/
def content (s : Receiver) : List (List Byte) := s.dispatched ++ s.batch ++ s.rxQueue

/-- The packets that were cut off when the queue was not full. -/
def accepted (s : Receiver) : List (List Byte) :=
  (s.arrivals.filter fun arrival => arrival.2 ≠ rxCapacity).map Prod.fst

/-- The packets that were cut off, and those that will be once `later` has come in. -/
def cut (s : Receiver) (later : List Byte) : List (List Byte) :=
  s.arrivals.map Prod.fst ++ readPackets [] (s.readBuffer ++ later)

variable {s t : Receiver} {e : Step} {es : List Step}

/-! ## Steps -/

/-- What the handler does with the first line of the buffer. -/
theorem handle_eq {line rest : List Byte} (hz : (0 : Byte) ∉ line)
    (hbuf : s.readBuffer = line ++ 0 :: rest) :
    s.handle = if line ≠ [] then ({ s with readBuffer := rest } : Receiver).push (line ++ [0])
      else { s with readBuffer := rest } := by
  have hne : ∀ b ∈ line, decide (b ≠ 0) = true := by
    intro b hb
    refine decide_eq_true fun hzero => hz ?_
    rwa [← hzero]
  have htake : s.readBuffer.takeWhile (· ≠ 0) = line := by
    rw [hbuf, List.takeWhile_append_of_pos hne, List.takeWhile_cons_of_neg (by decide),
      List.append_nil]
  have hdrop : (s.readBuffer.dropWhile (· ≠ 0)).tail = rest := by
    rw [hbuf, List.dropWhile_append_of_pos hne, List.dropWhile_cons_of_neg (by decide),
      List.tail_cons]
  rw [handle, htake, hdrop]

/-- **What a step can do**: it lets bytes in, cuts a line off, or moves packets on. -/
theorem step_cases (hstep : step e s = some t) :
    (t.content = s.content ∧ t.arrivals = s.arrivals ∧
        t.readBuffer = s.readBuffer ++ e.received ∧ t.rxQueue.length ≤ s.rxQueue.length) ∨
      ∃ line rest, (0 : Byte) ∉ line ∧ s.readBuffer = line ++ 0 :: rest ∧ e.received = [] ∧
        t = if line ≠ [] then ({ s with readBuffer := rest } : Receiver).push (line ++ [0])
          else { s with readBuffer := rest } := by
  cases e with
  | read bytes =>
    rw [step] at hstep
    split_ifs at hstep with h
    cases hstep
    exact Or.inl ⟨rfl, rfl, rfl, le_rfl⟩
  | complete =>
    rw [step] at hstep
    split_ifs at hstep with h
    cases hstep
    obtain ⟨line, rest, hbuf, hz⟩ := List.eq_append_cons_of_mem h.2
    exact Or.inr ⟨line, rest, hz, hbuf, rfl, handle_eq hz hbuf⟩
  | fail =>
    rw [step] at hstep
    split_ifs at hstep with h
    cases hstep
    exact Or.inl ⟨rfl, rfl, (List.append_nil _).symm, le_rfl⟩
  | swap =>
    rw [step] at hstep
    split_ifs at hstep with h
    cases hstep
    refine Or.inl ⟨?_, rfl, (List.append_nil _).symm, Nat.zero_le _⟩
    rw [content, content, h, List.append_nil, List.append_nil]
  | dispatch =>
    rw [step] at hstep
    cases hbatch : s.batch with
    | nil =>
      rw [hbatch] at hstep
      cases hstep
    | cons packet rest =>
      rw [hbatch] at hstep
      cases hstep
      refine Or.inl ⟨?_, rfl, (List.append_nil _).symm, le_rfl⟩
      rw [content, content, hbatch, List.append_assoc s.dispatched, List.singleton_append]

/-- A packet that is cut off is noted down, and goes into the queue unless that is full. -/
theorem push_eq (vec : List Byte) (s : Receiver) :
    s.push vec = { s with
      arrivals := s.arrivals ++ [(vec, s.rxQueue.length)]
      rxQueue := if s.rxQueue.length < rxCapacity then s.rxQueue ++ [vec] else s.rxQueue } := by
  rw [push]
  split_ifs <;> rfl

@[simp] theorem arrivals_push (vec : List Byte) (s : Receiver) :
    (s.push vec).arrivals = s.arrivals ++ [(vec, s.rxQueue.length)] := by
  rw [push_eq]

@[simp] theorem readBuffer_push (vec : List Byte) (s : Receiver) :
    (s.push vec).readBuffer = s.readBuffer := by
  rw [push_eq]

@[simp] theorem reading_push (vec : List Byte) (s : Receiver) :
    (s.push vec).reading = s.reading := by
  rw [push_eq]

/-- The hand-over: what was put into the queue is what was cut off when there was space. -/
def HandedOver (s : Receiver) : Prop :=
  s.rxQueue.length ≤ rxCapacity ∧ s.content = s.accepted

theorem HandedOver.push (h : s.HandedOver) (vec : List Byte) : (s.push vec).HandedOver := by
  obtain ⟨hcapacity, hcontent⟩ := h
  rw [HandedOver, accepted, arrivals_push, List.filter_append, List.map_append, ← accepted,
    ← hcontent]
  by_cases hspace : s.rxQueue.length < rxCapacity
  · have hne : s.rxQueue.length ≠ rxCapacity := Nat.ne_of_lt hspace
    rw [push_eq, if_pos hspace]
    refine ⟨?_, ?_⟩
    · rw [List.length_append]
      exact hspace
    · simp [content, hne]
  · have hfull : s.rxQueue.length = rxCapacity :=
      Nat.le_antisymm hcapacity (Nat.le_of_not_lt hspace)
    rw [push_eq, if_neg hspace]
    refine ⟨hcapacity, ?_⟩
    simp [content, hfull]

/-- **One step of the hand-over**: moving packets on keeps their order, and a packet that
is cut off is put behind them or dropped. -/
theorem HandedOver.step (h : s.HandedOver) (hstep : step e s = some t) : t.HandedOver := by
  rcases step_cases hstep with ⟨hcontent, harrivals, -, hqueue⟩ | ⟨line, rest, -, -, -, rfl⟩
  · refine ⟨hqueue.trans h.1, ?_⟩
    rw [hcontent, accepted, harrivals]
    exact h.2
  · have hrest : HandedOver { s with readBuffer := rest } := h
    split_ifs
    · exact hrest.push _
    · exact hrest

/-- **One step of the cutting**: the packets that are cut off, now and later, are the same
before a step and after it, if what comes in with it counts as still to come before. -/
theorem cut_step (hstep : step e s = some t) (later : List Byte) :
    t.cut later = s.cut (e.received ++ later) := by
  rcases step_cases hstep with ⟨-, harrivals, hbuf, -⟩ | ⟨line, rest, hz, hbuf, hreceived, rfl⟩
  · rw [cut, cut, harrivals, hbuf, List.append_assoc]
  · rw [cut, cut, hreceived, List.nil_append, hbuf, List.append_assoc, List.cons_append]
    by_cases hline : line = []
    · rw [if_neg (not_not.mpr hline), hline, List.nil_append, readPackets, if_pos rfl, if_pos rfl]
    · rw [if_pos hline, arrivals_push, readBuffer_push, readPackets_append _ line [] hz (by simpa using hline),
        List.nil_append, List.map_append, List.append_assoc]
      rfl

/-! ## Runs -/

/-- The cutting does not depend on how the stream is split into reads. -/
theorem cut_run (hrun : run step es s = some t) (later : List Byte) :
    t.cut later = s.cut (es.flatMap Step.received ++ later) := by
  induction es generalizing s with
  | nil => rw [run_nil.mp hrun, List.flatMap_nil, List.nil_append]
  | cons e es ih =>
    obtain ⟨r, hfirst, hrest⟩ := run_cons.mp hrun
    rw [ih hrest, cut_step hfirst, List.flatMap_cons, List.append_assoc]

/-- A buffer without a zero has no packet to cut off. -/
theorem readPackets_of_not_mem : ∀ l s : List Byte, (0 : Byte) ∉ l → readPackets s l = [] := by
  intro l
  induction l with
  | nil => exact fun _ _ => rfl
  | cons b l ih =>
    intro s hz
    rw [List.mem_cons, not_or] at hz
    rw [readPackets, if_neg (Ne.symm hz.1), ih _ hz.2]

theorem handedOver_run (hrun : run step es start = some s) : s.HandedOver :=
  run_invariant HandedOver.step (show start.HandedOver from ⟨Nat.zero_le _, rfl⟩) hrun

theorem arrivals_run (hrun : run step es start = some s) :
    s.arrivals.map Prod.fst ++ readPackets [] s.readBuffer =
      readPackets [] (es.flatMap Step.received) := by
  have hcut := cut_run hrun []
  rwa [cut, cut, List.append_nil, List.append_nil] at hcut

/-- When all is read and the queue was never full, every packet of the stream was put into
it. -/
theorem content_run (hrun : run step es start = some s) (hdone : (0 : Byte) ∉ s.readBuffer)
    (hspace : ∀ arrival ∈ s.arrivals, arrival.2 < rxCapacity) :
    s.content = readPackets [] (es.flatMap Step.received) := by
  have hall : (s.arrivals.filter fun arrival => arrival.2 ≠ rxCapacity) = s.arrivals := by
    rw [List.filter_eq_self]
    intro arrival harrival
    exact decide_eq_true (Nat.ne_of_lt (hspace arrival harrival))
  have hcut := arrivals_run hrun
  rw [readPackets_of_not_mem _ _ hdone, List.append_nil] at hcut
  rw [(handedOver_run hrun).2, accepted, hall, hcut]

theorem reading_handle (s : Receiver) : s.handle.reading = s.reading := by
  rw [handle]
  split_ifs
  · rw [reading_push]
  · rfl

theorem readBuffer_handle {line rest : List Byte} (hz : (0 : Byte) ∉ line)
    (hbuf : s.readBuffer = line ++ 0 :: rest) : s.handle.readBuffer = rest := by
  rw [handle_eq hz hbuf]
  split_ifs
  · rw [readBuffer_push]
  · rfl

/-- The reads that are complete can always be handled, so that the buffer has no zero left. -/
theorem exists_done (hreading : s.reading = true) :
    ∃ k t, run step (List.replicate k .complete) s = some t ∧ t.reading = true ∧
      (0 : Byte) ∉ t.readBuffer := by
  induction hn : s.readBuffer.length using Nat.strong_induction_on generalizing s with
  | _ n ih =>
    by_cases hz : (0 : Byte) ∈ s.readBuffer
    · obtain ⟨line, rest, hbuf, hzline⟩ := List.eq_append_cons_of_mem hz
      have hlt : s.handle.readBuffer.length < n := by
        rw [readBuffer_handle hzline hbuf, ← hn, hbuf, List.length_append, List.length_cons]
        omega
      obtain ⟨k, t, hrun, ht, hzt⟩ := ih _ hlt ((reading_handle s).trans hreading) rfl
      exact ⟨k + 1, t, run_cons.mpr ⟨_, if_pos ⟨hreading, hz⟩, hrun⟩, ht, hzt⟩
    · exact ⟨0, s, rfl, hreading, hz⟩

/-- **Nothing keeps the reads from being made**: however a stream is split, there is a run in
which these are the reads, and at its end all packets were cut off. -/
theorem exists_run (reads : List (List Byte)) (hreading : s.reading = true)
    (hz : (0 : Byte) ∉ s.readBuffer) :
    ∃ es t, run step es s = some t ∧ es.flatMap Step.received = reads.flatten ∧
      (0 : Byte) ∉ t.readBuffer := by
  induction reads generalizing s with
  | nil => exact ⟨[], s, rfl, rfl, hz⟩
  | cons bytes reads ih =>
    obtain ⟨k, r, hhandled, hreading', hz'⟩ :=
      exists_done (s := { s with readBuffer := s.readBuffer ++ bytes }) hreading
    obtain ⟨es, t, hrest, hreads, hend⟩ := ih hreading' hz'
    have hread : step (.read bytes) s = some { s with readBuffer := s.readBuffer ++ bytes } :=
      if_pos ⟨hreading, hz⟩
    have hnone : (List.replicate k Step.complete).flatMap Step.received = [] :=
      List.flatMap_eq_nil_iff.mpr fun e he => congrArg Step.received (List.eq_of_mem_replicate he)
    refine ⟨.read bytes :: (List.replicate k .complete ++ es), t, ?_, ?_, hend⟩
    · exact run_cons.mpr ⟨_, hread, run_append.mpr ⟨r, hhandled, hrest⟩⟩
    · rw [List.flatMap_cons, List.flatMap_append, hnone, hreads]
      rfl

/-- **The hand-over between the threads.** In every order of what the two threads do,
`rx_queue_` holds at most 1024 packets; what was dispatched, followed by the rest of the
batch and by `rx_queue_`, is what was cut off, in this order, but for those packets that
were cut off when `rx_queue_` held 1024; and what was cut off is what the stream that came
in consists of, up to what `read_buffer_` still holds. -/
theorem handed_over (hrun : run step es start = some s) :
    s.rxQueue.length ≤ 1024 ∧
      s.dispatched ++ s.batch ++ s.rxQueue =
        (s.arrivals.filter fun arrival => arrival.2 ≠ 1024).map Prod.fst ∧
      s.arrivals.map Prod.fst ++ readPackets [] s.readBuffer =
        readPackets [] (es.flatMap Step.received) :=
  ⟨(handedOver_run hrun).1, (handedOver_run hrun).2, arrivals_run hrun⟩

/-- A packet in pieces, an empty line, and the beginning of another packet; the first one
is dispatched. -/
def twoReads : List Step :=
  [.read [0x02], .read [0x11, 0, 0, 0x02], .complete, .swap, .complete, .dispatch]

/-- One packet is dispatched, and another one is still in `read_buffer_`. -/
theorem handed_over_two_reads :
    ∃ s, run step twoReads start = some s ∧
      s.rxQueue.length ≤ 1024 ∧
      s.dispatched ++ s.batch ++ s.rxQueue =
        (s.arrivals.filter fun arrival => arrival.2 ≠ 1024).map Prod.fst ∧
      s.arrivals.map Prod.fst ++ readPackets [] s.readBuffer =
        readPackets [] (twoReads.flatMap Step.received) := by
  have hrun : run step twoReads start = some _ := rfl
  exact ⟨_, hrun, handed_over hrun⟩

/-! ## Junk and frames -/

/-- The packets of a stream: its segments that end with a zero and are not empty. -/
def terminated (g : List Byte) : List (List Byte) :=
  ((g.splitOn 0).dropLast.filter fun segment => segment ≠ []).map fun segment => segment ++ [0]

/-- The rest of a stream, behind its last zero. -/
def unterminated (g : List Byte) : List Byte := (g.splitOn 0).getLast?.getD []

theorem terminated_of_not_mem {g : List Byte} (hz : (0 : Byte) ∉ g) : terminated g = [] := by
  rw [terminated, List.splitOn_eq_singleton hz]
  rfl

theorem unterminated_of_not_mem {g : List Byte} (hz : (0 : Byte) ∉ g) : unterminated g = g := by
  rw [unterminated, List.splitOn_eq_singleton hz]
  rfl

theorem terminated_append {s : List Byte} (hz : (0 : Byte) ∉ s) (g : List Byte) :
    terminated (s ++ 0 :: g) = (if s = [] then [] else [s ++ [0]]) ++ terminated g := by
  rw [terminated, List.splitOn_append_cons_self, List.splitOn_eq_singleton hz, List.singleton_append,
    List.dropLast_cons_of_ne_nil (List.splitOn_ne_nil 0 g)]
  split_ifs with hs
  · rw [List.filter_cons_of_neg (by simpa using hs)]
    rfl
  · rw [List.filter_cons_of_pos (by simpa using hs)]
    rfl

theorem unterminated_append (s g : List Byte) : unterminated (s ++ 0 :: g) = unterminated g := by
  rw [unterminated, unterminated, List.splitOn_append_cons_self,
    List.getLast?_append_of_ne_nil _ (List.splitOn_ne_nil 0 g)]

/-- Reading on behind a piece of the stream. -/
theorem readPackets_terminated (l : List Byte) : ∀ g s : List Byte, (0 : Byte) ∉ s →
    readPackets s (g ++ l) = terminated (s ++ g) ++ readPackets (unterminated (s ++ g)) l := by
  intro g
  induction g with
  | nil =>
    intro s hz
    rw [List.append_nil, terminated_of_not_mem hz, unterminated_of_not_mem hz]
    rfl
  | cons b g ih =>
    intro s hz
    rw [List.cons_append, readPackets]
    by_cases hb : b = 0
    · rw [if_pos hb, ih [] List.not_mem_nil, List.nil_append, hb, terminated_append hz,
        unterminated_append]
      split_ifs <;> rfl
    · have hz' : (0 : Byte) ∉ s ++ [b] := by
        rw [List.mem_append, List.mem_singleton]
        exact not_or.mpr ⟨hz, Ne.symm hb⟩
      rw [if_neg hb, ih (s ++ [b]) hz', List.append_assoc, List.singleton_append]

/-- The rest of a stream has no zero. -/
theorem eq_append_unterminated (g : List Byte) :
    (0 : Byte) ∉ unterminated g ∧ (g = unterminated g ∨ ∃ s, g = s ++ 0 :: unterminated g) := by
  by_cases hz : (0 : Byte) ∈ g
  · -- the last zero is the first one from behind
    obtain ⟨r, s, hr, hzr⟩ := List.eq_append_cons_of_mem (List.mem_reverse.mpr hz)
    have hg : g = s.reverse ++ 0 :: r.reverse := by
      rw [← List.reverse_reverse g, hr]
      simp
    have hzr' : (0 : Byte) ∉ r.reverse := by
      rwa [List.mem_reverse]
    have hrest : unterminated g = r.reverse := by
      rw [hg, unterminated_append, unterminated_of_not_mem hzr']
    rw [hrest]
    exact ⟨hzr', Or.inr ⟨s.reverse, hg⟩⟩
  · rw [unterminated_of_not_mem hz]
    exact ⟨hz, Or.inl rfl⟩

/-- There is no rest exactly when the stream is empty or ends with a zero. -/
theorem unterminated_eq_nil_iff (g : List Byte) :
    unterminated g = [] ↔ g = [] ∨ g.getLast? = some 0 := by
  obtain ⟨hz, hg⟩ := eq_append_unterminated g
  rcases List.eq_nil_or_concat (unterminated g) with hnil | ⟨l, b, hrest⟩
  · refine iff_of_true hnil ?_
    rw [hnil] at hg
    rcases hg with rfl | ⟨s, rfl⟩
    · exact Or.inl rfl
    · exact Or.inr List.getLast?_concat
  · rw [List.concat_eq_append] at hrest
    have hlast : g.getLast? = some b := by
      rw [hrest] at hg
      rcases hg with rfl | ⟨s, rfl⟩
      · exact List.getLast?_concat
      · rw [← List.cons_append, ← List.append_assoc, List.getLast?_concat]
    refine iff_of_false ?_ (not_or.mpr ⟨?_, ?_⟩)
    · rw [hrest]
      simp
    · rintro rfl
      cases hlast
    · rintro hzero
      rw [hlast, Option.some.injEq] at hzero
      rw [hrest, hzero] at hz
      exact hz (by simp)

/-- The first frame is read together with what stands before it. -/
def glue (r : List Byte) : List (List Byte) → List (List Byte)
  | [] => []
  | frame :: frames => (r ++ frame) :: frames

theorem readPackets_glue {r : List Byte} {frames : List (List Byte)}
    (hframes : ∀ f ∈ frames, Delimited f ∧ f ≠ [0]) :
    readPackets r frames.flatten = glue r frames := by
  cases frames with
  | nil => rfl
  | cons f frames =>
    obtain ⟨⟨t, rfl, hzt⟩, hne⟩ := hframes f List.mem_cons_self
    have ht : r ++ t ≠ [] := by
      intro hnil
      rw [(List.append_eq_nil_iff.mp hnil).2] at hne
      exact hne rfl
    rw [List.flatten_cons, List.append_assoc, List.singleton_append, zero_eq,
      readPackets_append _ t r hzt ht,
      readPackets_flatten frames fun f hf => hframes f (List.mem_cons_of_mem _ hf), List.append_assoc]
    rfl

theorem delimited_of_forall₂ {messages frames : List (List Byte)}
    (hframes : List.Forall₂ (fun m f => m ≠ [] ∧ CobsOutput m f) messages frames) :
    ∀ f ∈ frames, Delimited f ∧ f ≠ [0] := by
  induction hframes with
  | nil => exact fun f hf => absurd hf List.not_mem_nil
  | cons hframe _ ih =>
    intro f hf
    rcases List.mem_cons.mp hf with rfl | hf
    · rw [hframe.2.eq_stuff hframe.1]
      exact ⟨delimited_stuff _, stuff_ne_zero _⟩
    · exact ih f hf

/-- **Framing is self-synchronising.** Let any bytes be followed by what `cobs_encode`
makes of some messages, none of them empty; let the stream come in in any pieces, and be
read up to the end, the queue never being full. Then the packets put into `rx_queue_` are
those of the junk, one packet of the rest of the junk and the first frame, and then exactly
the other frames; and there is no such rest if the junk is empty or ends with a zero. -/
theorem self_synchronising {g : List Byte} {messages frames : List (List Byte)}
    (hframes : List.Forall₂ (fun m f => m ≠ [] ∧ CobsOutput m f) messages frames)
    (hrun : run step es start = some s)
    (hstream : es.flatMap Step.received = g ++ frames.flatten)
    (hdone : (0 : Byte) ∉ s.readBuffer) (hspace : ∀ arrival ∈ s.arrivals, arrival.2 < 1024) :
    s.dispatched ++ s.batch ++ s.rxQueue = terminated g ++ glue (unterminated g) frames ∧
      (unterminated g = [] ↔ g = [] ∨ g.getLast? = some 0) := by
  refine ⟨(content_run hrun hdone hspace).trans ?_, unterminated_eq_nil_iff g⟩
  rw [hstream, readPackets_terminated _ g [] List.not_mem_nil, List.nil_append,
    readPackets_glue (delimited_of_forall₂ hframes)]

/-- Junk with an empty line, the rest of a frame, and two frames, the first of which is cut
through. -/
def junkAndFrames : List Step :=
  [.read [0x05, 0, 0, 0x07], .complete, .complete, .read [0x02], .read [0x11, 0, 0x02, 0x12, 0],
    .complete, .swap, .complete]

/-- Two messages of one byte, behind some junk. -/
theorem self_synchronising_two_frames :
    ∃ s, run step junkAndFrames start = some s ∧
      s.dispatched ++ s.batch ++ s.rxQueue =
          terminated [0x05, 0, 0, 0x07] ++
            glue (unterminated [0x05, 0, 0, 0x07]) [[0x02, 0x11, 0], [0x02, 0x12, 0]] ∧
      (unterminated [0x05, 0, 0, 0x07] = [] ↔
        ([0x05, 0, 0, 0x07] : List Byte) = [] ∨ [0x05, 0, 0, (0x07 : Byte)].getLast? = some 0) := by
  have hframe : ∀ b : Byte, cobsEncode [b] (⟨[0, 0, 0], rfl⟩ : Buffer Byte 3) 3 =
      some (.ok, ⟨[0x02, b, 0], rfl⟩, 3) → CobsOutput [b] [0x02, b, 0] :=
    fun b henc => ⟨3, 3, _, _, ⟨Nat.le_refl 3, by decide⟩, henc, rfl⟩
  have hrun : run step junkAndFrames start = some _ := rfl
  exact ⟨_, hrun, self_synchronising
    (.cons ⟨List.cons_ne_nil _ _, hframe 0x11 rfl⟩ (.cons ⟨List.cons_ne_nil _ _, hframe 0x12 rfl⟩ .nil))
    hrun rfl (by decide) (by decide)⟩

/-- **Delivery, whatever the threads do.** The calls return `DASHBOARD_OK` and pass on
frames, and when these come in in any pieces, are cut off and dispatched in any order of
what the two threads do, the queue never being full, then the queues of the panels hold
exactly what the calls said, in their order. -/
theorem delivered {io : Transport} (hsend : ∀ trace frame, io.sendData trace frame = true)
    {calls : List Call} (hsizes : ∀ c ∈ calls, c.size ≤ 99) (w : Firmware) :
    ∃ (w' : Firmware) (frames : List (List Byte)),
      runCalls io calls w = some (List.replicate calls.length .ok, w') ∧
      w'.trace = w.trace ++ frames.map .sent ∧
      ∀ {es s}, run step es start = some s → es.flatMap Step.received = frames.flatten →
        (0 : Byte) ∉ s.readBuffer → (∀ arrival ∈ s.arrivals, arrival.2 < 1024) →
        s.batch = [] → s.rxQueue = [] →
        ∃ h', produce s.dispatched Host.main = some h' ∧
          h'.Holds (calls.filterMap Call.telemetry) (calls.filterMap Call.alertText) [] := by
  obtain ⟨w', hcalls, htrace⟩ := runCalls_eq hsend calls w hsizes
  obtain ⟨h', hproduce, hq⟩ := produce_frames calls hsizes Host.holds_main
  refine ⟨w', calls.map fun c => stuff c.packet, hcalls, htrace, ?_⟩
  intro es s hrun hstream hdone hspace hbatch hqueue
  have hcontent := content_run hrun hdone hspace
  have hframes : ∀ f ∈ calls.map fun c => stuff c.packet, Delimited f ∧ f ≠ [0] := by
    intro f hf
    obtain ⟨c, -, rfl⟩ := List.mem_map.mp hf
    exact ⟨delimited_stuff _, stuff_ne_zero _⟩
  rw [content, hbatch, hqueue, List.append_nil, List.append_nil, hstream,
    readPackets_flatten _ hframes] at hcontent
  rw [hcontent]
  exact ⟨h', hproduce, hq⟩

end Receiver

end Houston
