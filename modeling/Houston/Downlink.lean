import Houston.Commands
import Houston.Display

/-!
# What the host sends

All that the application ever sends are requests and modify packets: one for each entry that the
user applies, and one for each refresh.

* `Transmitter.Leaves` — the bytes that are still to be written, if no write has failed.
* `Action.command` — the command that an action stands for.
* `step_link` — what a step does to the packets on their way out.
* `commands_only` — **in every run**, what is anywhere on its way out, or written, is a command.
-/

namespace Houston

open LiveDataPanel (modifyPacket)

/-! ## What is still to be written -/

namespace Transmitter

variable {α : Type} {s t : Transmitter α} {e : Step α}

/-- The packets that are still to be written. -/
def unwritten (s : Transmitter α) : List α := s.txQueue ++ (s.posted ++ s.unposted)

/-- The end of a write that was successful. -/
theorem written_inv (h : s.written = some t) :
    ∃ front rest, s.txQueue = front :: rest ∧
      t = { s with txQueue := rest, writes := s.writes ++ rest.head?.toList } := by
  cases hqueue : s.txQueue with
  | nil =>
    rw [written, hqueue] at h
    cases h
  | cons front rest =>
    rw [written_eq hqueue] at h
    exact ⟨front, rest, rfl, (Option.some.inj h).symm⟩

/-- The thread of the port does nothing to what the thread of the user interface is at. -/
theorem port_frame (hport : e = .handle ∨ ∃ k error, e = .complete k error)
    (hstep : step e s = some t) : t.txData = s.txData ∧ t.sending = s.sending := by
  rcases hport with rfl | ⟨k, error, rfl⟩
  · rw [step] at hstep
    split at hstep
    · cases hstep
    · rw [handle_eq] at hstep
      cases hstep
      split_ifs <;> exact ⟨rfl, rfl⟩
  · obtain ⟨data, -, hstep⟩ := Option.bind_eq_some_iff.mp hstep
    cases error with
    | true =>
      cases hstep
      exact ⟨rfl, rfl⟩
    | false =>
      obtain ⟨front, rest, -, rfl⟩ := written_inv hstep
      exact ⟨rfl, rfl⟩

/-- No more packets are posted than there are. -/
def Posts (s : Transmitter α) : Prop := s.sending.getD 0 ≤ s.txData.length

theorem Posts.step (h : s.Posts) (hstep : step e s = some t) : t.Posts := by
  cases e with
  | sendData data =>
    rw [Transmitter.step] at hstep
    split_ifs at hstep
    cases hstep
    exact h.trans (by simp [sendData])
  | begin =>
    rw [Transmitter.step] at hstep
    split_ifs at hstep
    cases hstep
    exact Nat.zero_le _
  | post =>
    obtain ⟨i, -, hstep⟩ := Option.bind_eq_some_iff.mp hstep
    obtain ⟨data, hdata, hstep⟩ := Option.bind_eq_some_iff.mp hstep
    cases hstep
    exact (List.getElem?_eq_some_iff.mp hdata).1
  | clear =>
    obtain ⟨i, -, hstep⟩ := Option.bind_eq_some_iff.mp hstep
    split_ifs at hstep
    cases hstep
    exact Nat.zero_le _
  | handle =>
    obtain ⟨htxData, hsending⟩ := port_frame (Or.inl rfl) hstep
    rwa [Posts, htxData, hsending]
  | complete k error =>
    obtain ⟨htxData, hsending⟩ := port_frame (Or.inr ⟨k, error, rfl⟩) hstep
    rwa [Posts, htxData, hsending]

/-- What a step writes. -/
theorem port_step (hstep : step e s = some t) :
    ∃ written, t.port = s.port ++ written ∧ ((∀ k, e ≠ .complete k false) → written = []) := by
  rcases step_cases hstep with ⟨-, hport, -⟩ | ⟨data, rest, -, -, hhandle⟩ |
    ⟨k, data, -, ⟨-, rfl⟩ | ⟨rfl, hwritten⟩⟩
  · exact ⟨[], hport.trans (List.append_nil _).symm, fun _ => rfl⟩
  · rw [handle_eq] at hhandle
    cases hhandle
    refine ⟨[], ?_, fun _ => rfl⟩
    rw [List.append_nil]
    split_ifs <;> rfl
  · exact ⟨[], (List.append_nil _).symm, fun _ => rfl⟩
  · refine ⟨[data], ?_, fun hnone => absurd rfl (hnone k)⟩
    obtain ⟨front, rest, -, rfl⟩ := written_inv hwritten
    rfl

/-- More packets in `txData`. -/
theorem unwritten_append (h : s.Posts) (new : List α) :
    unwritten { s with txData := s.txData ++ new } = s.unwritten ++ new := by
  rw [unwritten, unwritten, unposted, unposted]
  simp only [List.drop_append_of_le_length h, List.append_assoc]

/-! ### Bytes -/

/-- The bytes of packets. -/
def bytesOf (packets : List Numbered) : List Byte := packets.flatMap Prod.fst

/-- The bytes that are still to be written, unless a write has failed; then they are lost. -/
structure Leaves (lost : List Byte) (s : Transmitter Numbered) : Prop where
  posts : s.Posts
  state : s.Busy ∧ lost = bytesOf s.unwritten ∨ s.Stranded

variable {s t : Transmitter Numbered} {e : Step Numbered} {lost : List Byte}

/-- **A step**: what it writes is what was next. -/
theorem Leaves.step (h : s.Leaves lost) (hgiven : e.given = []) (hstep : step e s = some t) :
    ∃ written lost', t.port = s.port ++ written ∧ t.content = s.content ∧
      lost = bytesOf written ++ lost' ∧ t.Leaves lost' ∧
      ((∀ k, e ≠ .complete k false) → written = []) := by
  have hposts := h.posts.step hstep
  obtain ⟨written, hport, hnone⟩ := port_step hstep
  rcases h.state with ⟨hbusy, rfl⟩ | hstranded
  · obtain ⟨hcontent, hend⟩ := hbusy.step hstep
    rw [hgiven, List.append_nil] at hcontent
    have hunwritten : s.unwritten = written ++ t.unwritten := by
      have hsame : t.port ++ t.unwritten = s.port ++ s.unwritten := hcontent
      rw [hport, List.append_assoc] at hsame
      exact (List.append_cancel_left hsame).symm
    -- the write that fails is the only step that strands what is left
    rcases hend with ⟨hbusy', -⟩ | ⟨hstranded, k, rfl⟩
    · refine ⟨written, _, hport, hcontent, ?_, ⟨hposts, Or.inl ⟨hbusy', rfl⟩⟩, hnone⟩
      rw [hunwritten, bytesOf, List.flatMap_append]
      rfl
    · obtain rfl := hnone fun _ => nofun
      exact ⟨[], _, hport, hcontent, rfl, ⟨hposts, Or.inr hstranded⟩, fun _ => rfl⟩
  · obtain ⟨hcontent, hstranded', hnot⟩ := hstranded.step hstep
    rw [hgiven, List.append_nil] at hcontent
    obtain rfl := hnone fun k => hnot k false
    exact ⟨[], lost, hport, hcontent, rfl, ⟨hposts, Or.inr hstranded'⟩, fun _ => rfl⟩

/-- A write fails after some bytes. -/
theorem Leaves.broken (h : s.Leaves lost) {k m : ℕ} {data : Numbered}
    (hdata : s.writes[k]? = some data) (hstep : Transmitter.step (.complete k true) s = some t) :
    t.port = s.port ∧ t.content = s.content ∧
      ∃ lost', lost = data.1.take m ++ lost' ∧ t.Leaves lost' := by
  have hposts := h.posts.step hstep
  rcases h.state with ⟨hbusy, rfl⟩ | ⟨hnone, -⟩
  · obtain ⟨hcontent, ⟨-, hnot⟩ | ⟨hstranded, -⟩⟩ := hbusy.step hstep
    · exact absurd rfl (hnot k)
    · obtain ⟨written, hport, hempty⟩ := port_step hstep
      obtain rfl := hempty fun _ => nofun
      obtain ⟨-, -, rest, hqueue⟩ := hbusy.of_getElem? hdata
      refine ⟨hport.trans (List.append_nil _), hcontent.trans (List.append_nil _),
        data.1.drop m ++ bytesOf (rest ++ (s.posted ++ s.unposted)), ?_, hposts, Or.inr hstranded⟩
      rw [← List.append_assoc, List.take_append_drop, unwritten, hqueue]
      rfl
  · rw [hnone] at hdata
    cases hdata

/-- Nothing is lost that does not have to be written. -/
theorem Leaves.lost_eq_nil (h : s.Leaves lost) (hunwritten : s.unwritten = []) : lost = [] := by
  rcases h.state with ⟨-, rfl⟩ | ⟨-, hqueue⟩
  · rw [hunwritten]
    rfl
  · exact absurd (List.append_eq_nil_iff.mp hunwritten).1 hqueue

/-- More packets to be written. -/
theorem Leaves.append (h : s.Leaves lost) (new : List Numbered) :
    Leaves (lost ++ bytesOf new) { s with txData := s.txData ++ new } := by
  refine ⟨h.posts.trans ?_, ?_⟩
  · rw [List.length_append]
    exact Nat.le_add_right _ _
  · rcases h.state with ⟨hbusy, rfl⟩ | hstranded
    · refine Or.inl ⟨hbusy, ?_⟩
      rw [unwritten_append h.posts, bytesOf, bytesOf, bytesOf, List.flatMap_append]
    · exact Or.inr hstranded

end Transmitter

/-- Commands are given to the dispatcher. -/
def Dispatcher.give (commands : List Command) (d : Dispatcher) : Dispatcher where
  handlerMap := d.handlerMap
  txData := d.txData ++ commands.map fun c => c.toPacket.bytes

theorem Dispatcher.give_nil (d : Dispatcher) : d.give [] = d := by
  rw [give, List.map_nil, List.append_nil]

theorem Dispatcher.give_give (commands commands' : List Command) (d : Dispatcher) :
    (d.give commands).give commands' = d.give (commands ++ commands') := by
  rw [give, give, give, List.map_append, List.append_assoc]

namespace Application

open LiveDataPanel Runs

/-! ## Actions -/

/-- The command that an action stands for. -/
def Action.command (listed : BitVec 16 → Option LiveDataPacket) : Action → Option Command
  | .edit _ _ => none
  | .apply key value junk => (listed key).map fun it =>
    .modify ⟨key, it.valueType,
      if it.valueType = ValueType.bool.bits 16 then setBoolByte junk (boolByte value) else value⟩

/-- The key of an entry that is applied fits a byte. -/
def Action.Low : Action → Prop
  | .edit _ _ => True
  | .apply key _ _ => lowKey key = key

variable {panel panel' : LiveDataPanel} {d d' : Dispatcher} {a : Action}

/-- **One action** sends a command at most; the one that it stands for, if the key fits a byte. -/
theorem act_gives (hact : act (panel, d) a = some (panel', d')) :
    ∃ commands, d' = d.give commands ∧
      (a.Low → commands = (a.command panel.liveDataMap).toList) := by
  cases a with
  | edit key value =>
    obtain ⟨it, -, hact⟩ := Option.bind_eq_some_iff.mp hact
    split_ifs at hact
    obtain ⟨panel₁, -, hact⟩ := Option.bind_eq_some_iff.mp hact
    cases hact
    exact ⟨[], d.give_nil.symm, fun _ => rfl⟩
  | apply key value junk =>
    obtain ⟨it, hedit, hit, hsend⟩ := press_inv hact
    rw [sendModifyPacket_eq, Option.map_eq_some_iff] at hsend
    obtain ⟨new, hnew, rfl⟩ := hsend
    refine ⟨[.modify _], rfl, fun hlow => ?_⟩
    have hkey : (key.setWidth 8).setWidth 16 = key := hlow
    rw [edit_eq hit, Option.map_eq_some_iff] at hedit
    obtain ⟨old, -, rfl⟩ := hedit
    rw [hkey, cell_setCell_self] at hnew
    cases hnew
    rw [Action.command, hit, hkey, Option.map_some, Option.toList_some]
    split_ifs
    · rw [boolByte_setBoolByte]
    · rfl

theorem actions_give : ∀ (actions : List Action) {panel panel' : LiveDataPanel}
    {d d' : Dispatcher}, panel.Matched → actions.foldlM act (panel, d) = some (panel', d') →
    ∃ commands, d' = d.give commands ∧ ((∀ a ∈ actions, a.Low) →
      commands = actions.filterMap (Action.command panel.liveDataMap)) := by
  intro actions
  induction actions with
  | nil =>
    intro panel panel' d d' _ hrun
    cases hrun
    exact ⟨[], d.give_nil.symm, fun _ => rfl⟩
  | cons a actions ih =>
    intro panel panel' d d' h hrun
    rw [List.foldlM_cons] at hrun
    obtain ⟨⟨panel₁, d₁⟩, hact, hrest⟩ := Option.bind_eq_some_iff.mp hrun
    obtain ⟨h₁, hlist⟩ := act_frame h hact
    obtain ⟨commands, rfl, hfirst⟩ := act_gives hact
    obtain ⟨commands', rfl, hothers⟩ := ih h₁ hrest
    refine ⟨commands ++ commands', d.give_give _ _, fun hlow => ?_⟩
    obtain ⟨hlow, hlow'⟩ := List.forall_mem_cons.mp hlow
    rw [hfirst hlow, hothers hlow', hlist, filterMap_cons_toList]

/-! ## Steps -/

/-- The commands that a step stands for. -/
def Step.commands (listed : BitVec 16 → Option LiveDataPacket) : Step → List Command
  | .liveData actions refresh =>
    actions.filterMap (Action.command listed) ++ if refresh then [.refresh] else []
  | _ => []

/-- The keys of the entries that are applied fit a byte. -/
def Step.Low : Step → Prop
  | .liveData actions _ => ∀ a ∈ actions, a.Low
  | _ => True

/-- The user does not click the button of the control panel. -/
def Step.Calm : Step → Prop
  | .control click _ _ => click = false
  | _ => True

/-- Packets, numbered, with the bytes of commands. -/
def Carry (packets : List Numbered) (commands : List Command) : Prop :=
  packets.map Prod.fst = commands.map fun c => c.toPacket.bytes

variable {s t : Application} {e : Step} {es : List Step} {l : Log}
  {packets : Option (List (List Byte))}

/-- What is new in `txData` is at its end. -/
theorem link_setHost {h : Host} {commands : List Command}
    (hgive : h.dispatcher = s.host.dispatcher.give commands) :
    ∃ new, Carry new commands ∧
      (s.setHost h).link = { s.link with txData := s.link.txData ++ new } := by
  have hlen : (s.link.txData.map Prod.fst).length = s.link.txData.length := List.length_map _
  have hdrop : h.dispatcher.txData.drop s.link.txData.length =
      commands.map fun c => c.toPacket.bytes := by
    rw [hgive]
    show (s.link.txData.map Prod.fst ++ _).drop _ = _
    rw [← hlen, List.drop_left]
  refine ⟨(commands.map fun c => c.toPacket.bytes).zipIdx s.given, ?_, ?_⟩
  · exact List.zipIdx_map_fst _ _
  · rw [setHost, hdrop]

theorem link_setHost_same {h : Host} (hsame : h.dispatcher = s.host.dispatcher) :
    (s.setHost h).link = s.link := by
  have hgive : h.dispatcher = s.host.dispatcher.give [] :=
    hsame.trans (Dispatcher.give_nil _).symm
  obtain ⟨new, hnew, hlink⟩ := link_setHost hgive
  obtain rfl := List.map_eq_nil_iff.mp hnew
  rw [hlink, List.append_nil]

/-- What a calm step does to the packets on their way out: they move on, or there are more. -/
def Advances (listed : BitVec 16 → Option LiveDataPacket) (e : Step) (s t : Application) : Prop :=
  (∃ e', e'.given = [] ∧ Transmitter.step e' s.link = some t.link ∧
      (e.commands listed = [] ∧ ∀ k error, e' = .complete k error → e = .complete k error)) ∨
    ∃ commands new, Carry new commands ∧ t.link = { s.link with txData := s.link.txData ++ new } ∧
      (e.Low → commands = e.commands listed)

theorem advances_stepLink {listed : BitVec 16 → Option LiveDataPacket}
    {e' : Transmitter.Step Numbered} (hgiven : e'.given = []) (hcommands : e.commands listed = [])
    (hsame : ∀ k error, e' = .complete k error → e = .complete k error)
    (hstep : s.stepLink e' = some t) : Advances listed e s t := by
  obtain ⟨link, hlink, hstep⟩ := Option.bind_eq_some_iff.mp hstep
  cases hstep
  exact Or.inl ⟨e', hgiven, hlink, hcommands, hsame⟩

theorem advances_same {listed : BitVec 16 → Option LiveDataPacket}
    (hcommands : e.commands listed = []) (hlink : t.link = s.link) : Advances listed e s t :=
  Or.inr ⟨[], [], rfl, hlink.trans (by rw [List.append_nil]), fun _ => hcommands.symm⟩

/-- **A calm step.** -/
theorem step_link (hs : s.Tracks l) (hcalm : e.Calm) (hstep : step e s = some t) :
    Advances (first l.records) e s t := by
  obtain ⟨telemetry, alerts, responses, shown, hserves, -, -, hmap, hrecords, -⟩ := hs.panels
  cases e with
  | control click opens batch =>
    obtain rfl : click = false := hcalm
    rw [step] at hstep
    split_ifs at hstep with hphase
    have hserve : s.serve batch = some t := hstep
    rw [serve] at hserve
    split at hserve
    · obtain ⟨h, hproduce, hserve⟩ := Option.bind_eq_some_iff.mp hserve
      obtain ⟨-, hsame⟩ := hserves.produce batch hproduce
      have hlink : (s.setHost h).link = s.link := link_setHost_same hsame
      obtain ⟨link, hbegin, hserve⟩ := Option.bind_eq_some_iff.mp hserve
      cases hserve
      exact Or.inl ⟨.begin, rfl, hlink ▸ hbegin, rfl, fun k error hsame => by cases hsame⟩
    · cases hserve
      exact advances_same rfl rfl
  | post =>
    rw [step] at hstep
    split_ifs at hstep
    refine advances_stepLink rfl rfl ?_ hstep
    exact fun k error hsame => by cases hsame
  | clear =>
    rw [step] at hstep
    split_ifs at hstep
    refine advances_stepLink (s := { s with phase := .telemetry }) rfl rfl ?_ hstep
    exact fun k error hsame => by cases hsame
  | telemetry input =>
    rw [step] at hstep
    split_ifs at hstep
    obtain ⟨⟨panel, h⟩, hrender, hstep⟩ := Option.bind_eq_some_iff.mp hstep
    obtain rfl := hserves.render_telemetry hrender
    cases hstep
    exact advances_same rfl (link_setHost_same rfl)
  | alert clear =>
    rw [step] at hstep
    split_ifs at hstep
    rw [hserves.render_alert clear] at hstep
    cases hstep
    exact advances_same rfl (link_setHost_same rfl)
  | liveData actions refresh =>
    rw [step] at hstep
    split_ifs at hstep with hphase
    rw [renderLiveData_eq (hserves.takeIn s.liveDataPanel), Option.map_eq_some_iff] at hstep
    obtain ⟨⟨panel, d⟩, hactions, rfl⟩ := hstep
    obtain ⟨commands, rfl, hcommands⟩ :=
      actions_give actions (hs.matched.foldl responses.flatten) hactions
    rw [listed_foldl responses.flatten hmap, hrecords] at hcommands
    -- the request of a refresh comes behind the packets of the actions
    cases refresh with
    | true =>
      obtain ⟨new, hnew, hlink⟩ := link_setHost (s := s)
        (h := { s.host.setConsumer 2 (.liveData []) with
          dispatcher := (refreshPackets (s.host.dispatcher.give commands)).2 })
        (Dispatcher.give_give commands [.refresh] s.host.dispatcher)
      refine Or.inr ⟨_, new, hnew, hlink, fun hlow => ?_⟩
      rw [hcommands hlow]
      rfl
    | false =>
      have hgive : Host.dispatcher { s.host.setConsumer 2 (.liveData []) with
          dispatcher := s.host.dispatcher.give commands } = s.host.dispatcher.give commands := rfl
      obtain ⟨new, hnew, hlink⟩ := link_setHost hgive
      refine Or.inr ⟨_, new, hnew, hlink, fun hlow => ?_⟩
      rw [hcommands hlow]
      exact (List.append_nil _).symm
  | handle =>
    refine advances_stepLink rfl rfl ?_ hstep
    exact fun k error hsame => by cases hsame
  | complete k error =>
    refine advances_stepLink rfl rfl (fun k' error' hsame => ?_) hstep
    cases hsame
    rfl

/-- **Attach**: what was in `txData` stays there, a request joins it, and `send_data` begins. -/
theorem link_attach {batch : List (List Byte)} (hs : s.Tracks l) (hproducer : s.dataProducer = none)
    (hphase : s.phase = .control) (hserve : s.attach.serve batch = some t) :
    ∃ new, Carry new [.refresh] ∧
      t.link = { Transmitter.start (s.link.txData ++ new) with sending := some 0 } := by
  have hnew : s.newProducer =
      { s with dataProducer := some ⟨s.given, false⟩, link := .start s.link.txData } := by
    rw [newProducer, hproducer]
  set r : Application :=
    { s with dataProducer := some ⟨s.given, true⟩, link := .start s.link.txData } with hr
  have hattach : s.attach = { r.startComponents with isEnable := true } := by
    rw [attach, hnew]
    rfl
  have hgive : Host.dispatcher { r.host with dispatcher := (refreshPackets r.host.dispatcher).2 } =
      r.host.dispatcher.give [.refresh] := rfl
  obtain ⟨new, hcarry, hlink⟩ := link_setHost hgive
  have hattached : s.attach.link = .start (s.link.txData ++ new) := by
    rw [hattach]
    exact hlink
  obtain ⟨hr', -, hstatus⟩ := hs.attach hphase hproducer
  obtain ⟨⟨birth, status⟩, hdata, rfl⟩ := Option.map_eq_some_iff.mp hstatus
  obtain ⟨telemetry, alerts, responses, shown, hserves, -⟩ := hr'.panels
  rw [serve, hdata] at hserve
  obtain ⟨h, hproduce, hserve⟩ := Option.bind_eq_some_iff.mp hserve
  obtain ⟨-, hsame⟩ := hserves.produce batch hproduce
  have hset : (s.attach.setHost h).link = s.attach.link := link_setHost_same hsame
  obtain ⟨link, hbegin, hserve⟩ := Option.bind_eq_some_iff.mp hserve
  cases hserve
  have hbegin' : Transmitter.step .begin (s.attach.setHost h).link = some link := hbegin
  rw [hset, hattached] at hbegin'
  cases hbegin'
  exact ⟨new, hcarry, rfl⟩

/-! ## The loop of `send_data` -/

/-- `send_data` is under way when the thread is in its loop, and only then. -/
def Settled (s : Application) : Prop := s.link.sending = none ↔ s.phase ≠ .sending

theorem settled_of_phase (hsending : s.link.sending = none) (hphase : s.phase ≠ .sending) :
    s.Settled :=
  iff_of_true hsending hphase

theorem settled_serve {batch : List (List Byte)} (hsending : s.link.sending = none)
    (hserve : s.serve batch = some t) : t.Settled := by
  rw [serve] at hserve
  split at hserve
  · obtain ⟨h, -, hserve⟩ := Option.bind_eq_some_iff.mp hserve
    obtain ⟨link, hbegin, hserve⟩ := Option.bind_eq_some_iff.mp hserve
    cases hserve
    rw [Transmitter.step] at hbegin
    split_ifs at hbegin
    cases hbegin
    exact iff_of_false (Option.some_ne_none 0) fun hother => hother rfl
  · cases hserve
    exact settled_of_phase hsending fun hother => by cases hother

theorem Settled.step (hs : s.Settled) (hstep : step e s = some t) : t.Settled := by
  cases e with
  | control click opens batch =>
    rw [Application.step] at hstep
    split_ifs at hstep with hphase
    have hsending : s.link.sending = none := hs.mpr fun hother => by cases hphase ▸ hother
    rw [renderControl] at hstep
    split_ifs at hstep
    · exact settled_serve hsending hstep
    · obtain ⟨r, hdetach, hserve⟩ := Option.bind_eq_some_iff.mp hstep
      rw [detach] at hdetach
      split at hdetach <;> cases hdetach
      exact settled_serve rfl hserve
    · refine settled_serve ?_ hstep
      rw [attach, newProducer]
      cases hproducer : s.dataProducer with
      | none => rfl
      | some _ => exact hsending
    · cases hstep
      exact settled_of_phase rfl fun hother => by cases hother
  | post =>
    rw [Application.step] at hstep
    split_ifs at hstep with hphase
    obtain ⟨link, hpost, hstep⟩ := Option.bind_eq_some_iff.mp hstep
    cases hstep
    obtain ⟨i, -, hpost⟩ := Option.bind_eq_some_iff.mp hpost
    obtain ⟨data, -, hpost⟩ := Option.bind_eq_some_iff.mp hpost
    cases hpost
    exact iff_of_false (Option.some_ne_none _) fun hother => hother hphase
  | clear =>
    rw [Application.step] at hstep
    split_ifs at hstep
    obtain ⟨link, hclear, hstep⟩ := Option.bind_eq_some_iff.mp hstep
    cases hstep
    obtain ⟨i, -, hclear⟩ := Option.bind_eq_some_iff.mp hclear
    split_ifs at hclear
    cases hclear
    exact settled_of_phase rfl fun hother => by cases hother
  | telemetry input =>
    rw [Application.step] at hstep
    split_ifs at hstep with hphase
    obtain ⟨⟨panel, h⟩, -, hstep⟩ := Option.bind_eq_some_iff.mp hstep
    cases hstep
    have hsending : s.link.sending = none := hs.mpr fun hother => by cases hphase ▸ hother
    exact settled_of_phase hsending fun hother => by cases hother
  | alert clear =>
    rw [Application.step] at hstep
    split_ifs at hstep with hphase
    obtain ⟨⟨panel, h⟩, -, hstep⟩ := Option.bind_eq_some_iff.mp hstep
    cases hstep
    have hsending : s.link.sending = none := hs.mpr fun hother => by cases hphase ▸ hother
    exact settled_of_phase hsending fun hother => by cases hother
  | liveData actions refresh =>
    rw [Application.step] at hstep
    split_ifs at hstep with hphase
    obtain ⟨⟨panel, h⟩, -, hstep⟩ := Option.bind_eq_some_iff.mp hstep
    obtain ⟨⟨panel', d⟩, -, hstep⟩ := Option.bind_eq_some_iff.mp hstep
    cases hstep
    have hsending : s.link.sending = none := hs.mpr fun hother => by cases hphase ▸ hother
    exact settled_of_phase hsending fun hother => by cases hother
  | handle =>
    obtain ⟨link, hlink, hstep⟩ := Option.bind_eq_some_iff.mp hstep
    cases hstep
    rw [Settled, (Transmitter.port_frame (Or.inl rfl) hlink).2]
    exact hs
  | complete k error =>
    obtain ⟨link, hlink, hstep⟩ := Option.bind_eq_some_iff.mp hstep
    cases hstep
    rw [Settled, (Transmitter.port_frame (Or.inr ⟨k, error, rfl⟩) hlink).2]
    exact hs

/-! ## Runs -/

theorem settled_run (hrun : run step es main = some s) : s.Settled :=
  have hmain : main.Settled := settled_of_phase rfl fun hother => by cases hother
  run_invariant (I := Settled) (fun hs hstep => hs.step hstep) hmain hrun

/-- The packet of a command. -/
def IsCommand (packet : Numbered) : Prop := ∃ c : Command, c.toPacket.bytes = packet.1

theorem Carry.all {new : List Numbered} {commands : List Command} (h : Carry new commands) :
    ∀ packet ∈ new, IsCommand packet := by
  intro packet hpacket
  have hmem : packet.1 ∈ new.map Prod.fst := List.mem_map_of_mem hpacket
  rw [h] at hmem
  obtain ⟨c, -, hc⟩ := List.mem_map.mp hmem
  exact ⟨c, hc⟩

/-- **Each step** keeps to commands. -/
theorem all_commands_step (hs : s.Tracks l) (hin : s.InSession packets)
    (hattached : packets.isSome = l.attached) (hall : s.link.All IsCommand)
    (hstep : step e s = some t) : t.link.All IsCommand := by
  by_cases hcalm : e.Calm
  · rcases step_link hs hcalm hstep with ⟨e', hgiven, hmove, -⟩ | ⟨commands, new, hnew, hlink, -⟩
    · refine hall.step (fun packet hpacket => ?_) hmove
      rw [hgiven] at hpacket
      exact absurd hpacket List.not_mem_nil
    · rw [hlink]
      exact { hall with txData := List.forall_mem_append.mpr ⟨hall.txData, hnew.all⟩ }
  · -- the user clicks the button
    obtain ⟨opens, batch, rfl⟩ : ∃ opens batch, e = .control true opens batch := by
      cases e with
      | control click opens batch =>
        cases click with
        | true => exact ⟨opens, batch, rfl⟩
        | false => exact absurd rfl hcalm
      | _ => exact absurd trivial hcalm
    rw [step] at hstep
    split_ifs at hstep with hphase
    rw [renderControl, hin.isEnable] at hstep
    have hstart := Transmitter.all_start hall.txData
    have hstatus := hin.status
    cases packets with
    | some packets =>
      obtain ⟨r, hdetach, hserve⟩ := Option.bind_eq_some_iff.mp hstep
      rw [detach] at hdetach
      split at hdetach <;> cases hdetach
      cases hserve
      exact hstart
    | none =>
      have hproducer : s.dataProducer = none := Option.map_eq_none_iff.mp hstatus
      cases opens with
      | true =>
        obtain ⟨new, hnew, hlink⟩ := link_attach hs hproducer hphase hstep
        rw [hlink]
        have hmore := Transmitter.all_start (P := IsCommand)
          (List.forall_mem_append.mpr ⟨hall.txData, hnew.all⟩)
        exact { hmore with }
      | false =>
        cases hstep
        rw [newProducer, hproducer]
        exact hstart

/-- **Only commands.** In every run of the application, whatever comes in and whatever the user
does, each packet that is on its way out or that was written is a request or a modify packet. -/
theorem commands_only (hrun : run step es main = some s) : s.link.All IsCommand := by
  -- together with what the log and the session say, this is kept by each step
  let I (s : Application) : Prop := ∃ l packets, s.Tracks l ∧ s.InSession packets ∧
    packets.isSome = l.attached ∧ s.link.All IsCommand
  have hmain : I main := ⟨_, none, tracks_main, inSession_main, rfl,
    Transmitter.all_start fun _ hpacket => absurd hpacket List.not_mem_nil⟩
  have hstep : ∀ {e s t}, I s → step e s = some t → I t := by
    rintro e s t ⟨l, packets, hs, hin, hattached, hall⟩ hstep
    exact ⟨_, _, hs.step hin hattached hstep, hin.step hstep, attached_stepSession hattached e,
      all_commands_step hs hin hattached hall hstep⟩
  obtain ⟨l, packets, -, -, -, hall⟩ := run_invariant hstep hmain hrun
  exact hall

end Application

end Houston
