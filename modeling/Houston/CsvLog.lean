import Houston.Panels
import Houston.Runs

/-!
# The CSV file of the telemetry panel

Runs of `TelemetryPanel::render`, one frame after another, with whatever telemetry comes in
between and whatever the user clicks. The columns of the file are the keys of `dataMap`,
which nothing fills, while its rows are looked up in `telemetryMap`.

* `Records` — what is expected of the file: the header names the keys of `telemetryMap`,
  and the rows give their last values.
* `records_iff` — it is so as long as saving begins before the first entry comes in.
-/

namespace Houston

open Runs

/-- Entries come in at the telemetry consumer that `main` creates. -/
def Host.arrive (entries : List (List Byte × List Byte)) (h : Host) : Host :=
  match h.consumers 1 with
  | .telemetry queue => h.setConsumer 1 (.telemetry (queue ++ entries))
  | _ => h

namespace TelemetryPanel

/-- A frame: what has come in since the one before, and what the user does. -/
structure Frame where
  arrivals : List (List Byte × List Byte)
  input : TelemetryInput

/-- Render a frame. -/
def Frame.step (f : Frame) (s : TelemetryPanel × Host) : Option (TelemetryPanel × Host) :=
  s.1.render f.input (s.2.arrive f.arrivals)

/-- The panel and the host, before the first frame. -/
def start₀ : TelemetryPanel × Host := (init, Host.main)

/-- All that has come in. -/
def received (frames : List Frame) : List (List Byte × List Byte) :=
  frames.flatMap Frame.arrivals

/-- Whether the clicks, if every file can be opened, leave the panel saving. -/
def saving (frames : List Frame) : Bool := frames.foldl (fun b f => b ^^ f.input.click) false

/-! ## What is expected of the file -/

/-- The header of a file with the given columns. -/
def headerRow (columns : List (List Byte)) : List Byte :=
  ascii "Time," ++ columns.flatMap (fun key => key ++ ascii ",") ++ ascii "\n"

/-- A row of a file with the given columns. -/
def dataRow (now : ℤ) (columns : List (List Byte)) (value : List Byte → Option (List Byte)) :
    List Byte :=
  ascii (toString now) ++ ascii "," ++
    columns.flatMap (fun key => (value key).getD [] ++ ascii ",") ++ ascii "\n"

/-- The columns are the keys that have a value, each once. -/
def Lists (columns : List (List Byte)) (value : List Byte → Option (List Byte)) : Prop :=
  columns.Nodup ∧ ∀ key, key ∈ columns ↔ value key ≠ none

/-- The frames `post` write a row each to a file, from the state `s` on, until the user
clicks: the columns are fixed, and the values are the latest of all that has come in. -/
def WritesRows (name : List Byte) (columns : List (List Byte)) (pre post : List Frame)
    (s : TelemetryPanel × Host) : Prop :=
  ∀ mid g rest t, post = mid ++ g :: rest → (∀ f ∈ mid, f.input.click = false) →
    run Frame.step mid s = some t → ∃ t', g.step t = some t' ∧
      t'.1.written name = t.1.written name ++
        dataRow g.input.now columns (latest (received (pre ++ mid ++ [g])))

/-- What is expected of the file: wherever the user clicks "Save File", the header lists the
keys of `telemetryMap`, and the rows of the following frames give their latest values. -/
def Records (frames : List Frame) : Prop :=
  ∀ pre f post s, frames = pre ++ f :: post → run Frame.step pre start₀ = some s →
    s.1.savingFile = false → f.input.click = true →
    ∃ s' columns, f.step s = some s' ∧ Lists columns s'.1.telemetryMap ∧
      s'.1.written f.input.csvFileBuffer =
        s.1.written f.input.csvFileBuffer ++ headerRow columns ∧
      WritesRows f.input.csvFileBuffer columns (pre ++ [f]) post s'

theorem received_append (frames frames' : List Frame) :
    received (frames ++ frames') = received frames ++ received frames' := List.flatMap_append

theorem received_concat (frames : List Frame) (f : Frame) :
    received (frames ++ [f]) = received frames ++ f.arrivals := by
  rw [received_append]
  simp [received]

theorem saving_concat (frames : List Frame) (f : Frame) :
    saving (frames ++ [f]) = (saving frames ^^ f.input.click) := by
  rw [saving, List.foldl_append]
  rfl

/-! ## What the panel does -/

/-- The panel and the host after some frames in which every file can be opened. -/
structure After (frames : List Frame) (s : TelemetryPanel × Host) : Prop where
  handler : s.2.dispatcher.getHandler PacketID.telemetry.code = some 1
  queue : s.2.consumers 1 = .telemetry []
  map : s.1.telemetryMap = latest (received frames)
  /-- nothing ever gets into `dataMap` -/
  dataMap : s.1.dataMap = []
  savingFile : s.1.savingFile = saving frames
  /-- a file is open while the panel saves -/
  file : s.1.file.isSome = s.1.savingFile
  csvHeaders : s.1.savingFile = true → s.1.csvHeaders = [ascii "Time"]

theorem after_nil : After [] start₀ where
  handler := by decide
  queue := rfl
  map := rfl
  dataMap := rfl
  savingFile := rfl
  file := rfl
  csvHeaders h := absurd h (by decide)

variable {frames : List Frame} {s : TelemetryPanel × Host} {f : Frame} {name : List Byte}

/-- The panel when the queue is empty: it shows the latest values. -/
def shown (entries : List (List Byte × List Byte)) (panel : TelemetryPanel) : TelemetryPanel :=
  { panel with telemetryMap := latest entries }

/-- A frame shows what has come in, writes a row, and attends to the button. -/
theorem After.step_eq (hs : After frames s) (f : Frame) :
    f.step s = some (((s.1.shown (received (frames ++ [f]))).saveRow f.input.now).press f.input,
      s.2.setConsumer 1 (.telemetry [])) := by
  have harrive : s.2.arrive f.arrivals = s.2.setConsumer 1 (.telemetry f.arrivals) := by
    rw [Host.arrive, hs.queue]
    rfl
  have hempty : (s.2.setConsumer 1 (.telemetry f.arrivals)).setConsumer 1 (.telemetry []) =
      s.2.setConsumer 1 (.telemetry []) := by
    rw [Host.setConsumer, Host.setConsumer, Function.update_idem]
    rfl
  have hqueue : (s.2.setConsumer 1 (.telemetry f.arrivals)).consumers 1 = .telemetry f.arrivals :=
    Host.consumers_setConsumer_self ..
  have hhandler : (s.2.setConsumer 1 (.telemetry f.arrivals)).dispatcher.getHandler
      PacketID.telemetry.code = some 1 := hs.handler
  rw [Frame.step, harrive, render, takeIn_eq hhandler hqueue hs.map, hempty, received_concat]
  rfl

/-- Writing to the file changes nothing else. -/
theorem put_eq (text : List Byte) (panel : TelemetryPanel) :
    panel.put text = { panel with written := (panel.put text).written } := by
  rw [put]
  split <;> rfl

/-- No row is written while the panel does not save. -/
theorem saveRow_of_not_saving (panel : TelemetryPanel) (now : ℤ) (h : panel.savingFile = false) :
    panel.saveRow now = panel := by
  rw [saveRow, h, if_neg Bool.false_ne_true]

/-- A frame without a click, while the panel does not save. -/
theorem After.step_idle (hs : After frames s) (hsaving : s.1.savingFile = false)
    (hclick : f.input.click = false) :
    ∃ s', f.step s = some s' ∧ After (frames ++ [f]) s' := by
  have hrow : (s.1.shown (received (frames ++ [f]))).saveRow f.input.now =
      s.1.shown (received (frames ++ [f])) := saveRow_of_not_saving _ _ hsaving
  refine ⟨(s.1.shown (received (frames ++ [f])), s.2.setConsumer 1 (.telemetry [])), ?_, ?_⟩
  · rw [hs.step_eq, hrow, press, if_neg (by rw [hclick]; decide)]
  · exact ⟨hs.handler, Host.consumers_setConsumer_self .., rfl, hs.dataMap,
      by rw [saving_concat, hclick, Bool.xor_false]; exact hs.savingFile, hs.file, hs.csvHeaders⟩

/-- A frame with a click on "Save File": a header without a key is written. -/
theorem After.step_save (hs : After frames s) (hsaving : s.1.savingFile = false)
    (hclick : f.input.click = true) (hopens : f.input.opens = true) :
    ∃ s', f.step s = some s' ∧ After (frames ++ [f]) s' ∧ s'.1.savingFile = true ∧
      s'.1.file = some f.input.csvFileBuffer ∧
      s'.1.written f.input.csvFileBuffer =
        s.1.written f.input.csvFileBuffer ++ headerRow [] := by
  have hrow : (s.1.shown (received (frames ++ [f]))).saveRow f.input.now =
      s.1.shown (received (frames ++ [f])) := saveRow_of_not_saving _ _ hsaving
  have hfile : s.1.file = none := by
    rw [← Option.not_isSome_iff_eq_none, hs.file, hsaving]
    decide
  -- the panel with the file open, which the header then goes to
  let opened : TelemetryPanel := { s.1.shown (received (frames ++ [f])) with
    dataMap := []
    csvHeaders := [ascii "Time"]
    file := some f.input.csvFileBuffer }
  have hstep : f.step s = some ({ opened.put (headerRow []) with savingFile := true },
      s.2.setConsumer 1 (.telemetry [])) := by
    rw [hs.step_eq, hrow, press, if_pos hclick, if_neg (by rw [shown, hsaving]; decide),
      startSaving]
    simp only [openFile, shown, hfile, hopens, if_true, Option.isNone_some, Bool.false_eq_true,
      if_false, putHeader, hs.dataMap]
    rfl
  have hsaved : saving (frames ++ [f]) = true := by
    rw [saving_concat, hclick, ← hs.savingFile, hsaving]
    rfl
  rw [put_eq] at hstep
  refine ⟨_, hstep, ⟨hs.handler, Host.consumers_setConsumer_self .., rfl, rfl, hsaved.symm,
    rfl, fun _ => rfl⟩, rfl, rfl, ?_⟩
  have hopened : opened.file = some f.input.csvFileBuffer := rfl
  exact (written_put f.input.csvFileBuffer).trans (if_pos hopened)

/-- A frame while the panel saves: a row with the time and nothing else is written. -/
theorem After.step_row (hs : After frames s) (hsaving : s.1.savingFile = true)
    (hfile : s.1.file = some name) :
    ∃ s', f.step s = some s' ∧ After (frames ++ [f]) s' ∧
      s'.1.written name = s.1.written name ++ dataRow f.input.now [] (fun _ => none) ∧
      (f.input.click = false → s'.1.savingFile = true ∧ s'.1.file = some name) := by
  let panel := s.1.shown (received (frames ++ [f]))
  have hrow : panel.saveRow f.input.now = panel.put (dataRow f.input.now [] fun _ => none) := by
    have hheaders : panel.csvHeaders = [ascii "Time"] := hs.csvHeaders hsaving
    rw [saveRow, if_pos (show panel.savingFile = true from hsaving), hheaders]
    rfl
  have hwritten : (panel.put (dataRow f.input.now [] fun _ => none)).written name =
      s.1.written name ++ dataRow f.input.now [] fun _ => none :=
    (written_put name).trans (if_pos hfile)
  have hstep := hs.step_eq f
  rw [hrow, put_eq, press] at hstep
  have hsaved : saving (frames ++ [f]) = (true ^^ f.input.click) := by
    rw [saving_concat, ← hs.savingFile, hsaving]
  cases hclick : f.input.click with
  | false =>
    rw [hclick, if_neg Bool.false_ne_true] at hstep
    rw [hclick] at hsaved
    refine ⟨_, hstep, ⟨hs.handler, Host.consumers_setConsumer_self .., rfl, hs.dataMap, ?_,
      hs.file, hs.csvHeaders⟩, hwritten, fun _ => ⟨hsaving, hfile⟩⟩
    rw [hsaved]
    exact hsaving
  | true =>
    rw [hclick, if_pos rfl] at hstep
    simp only [if_pos (show panel.savingFile = true from hsaving)] at hstep
    rw [hclick] at hsaved
    refine ⟨_, hstep, ⟨hs.handler, Host.consumers_setConsumer_self .., rfl, hs.dataMap,
      hsaved.symm, rfl, ?_⟩, hwritten, ?_⟩
    · exact fun h => absurd h Bool.false_ne_true
    · exact fun h => absurd h (by decide)

/-- A frame in which every file can be opened. -/
theorem After.step (hs : After frames s) (hopens : f.input.opens = true) :
    ∃ s', f.step s = some s' ∧ After (frames ++ [f]) s' := by
  cases hsaving : s.1.savingFile with
  | false =>
    cases hclick : f.input.click with
    | false => exact hs.step_idle hsaving hclick
    | true =>
      obtain ⟨s', hstep, hs', -⟩ := hs.step_save hsaving hclick hopens
      exact ⟨s', hstep, hs'⟩
  | true =>
    obtain ⟨name, hname⟩ := Option.isSome_iff_exists.mp (hs.file.trans hsaving)
    obtain ⟨s', hstep, hs', -⟩ := hs.step_row hsaving hname
    exact ⟨s', hstep, hs'⟩

/-- Frames in which every file can be opened, by induction on them. -/
theorem After.run : ∀ (mid : List Frame) {frames : List Frame} {s : TelemetryPanel × Host},
    After frames s → (∀ f ∈ mid, f.input.opens = true) →
      ∃ t, Runs.run Frame.step mid s = some t ∧ After (frames ++ mid) t := by
  intro mid
  induction mid with
  | nil =>
    intro frames s hs _
    exact ⟨s, rfl, by rwa [List.append_nil]⟩
  | cons f mid ih =>
    intro frames s hs hopens
    obtain ⟨s', hstep, hs'⟩ := hs.step (hopens f List.mem_cons_self)
    obtain ⟨t, hrun, ht⟩ := ih hs' fun g hg => hopens g (List.mem_cons_of_mem f hg)
    rw [List.append_assoc, List.singleton_append] at ht
    exact ⟨t, run_cons.mpr ⟨s', hstep, hrun⟩, ht⟩

/-- From the start. -/
theorem after_run (hopens : ∀ f ∈ frames, f.input.opens = true) :
    ∃ s, Runs.run Frame.step frames start₀ = some s ∧ After frames s := after_nil.run frames hopens

/-- Frames without a click go on writing to the same file. -/
theorem After.run_saving : ∀ (mid : List Frame) {frames : List Frame} {s t : TelemetryPanel × Host},
    After frames s → s.1.savingFile = true → s.1.file = some name →
    (∀ f ∈ mid, f.input.click = false) → Runs.run Frame.step mid s = some t →
      After (frames ++ mid) t ∧ t.1.savingFile = true ∧ t.1.file = some name := by
  intro mid
  induction mid with
  | nil =>
    intro frames s t hs hsaving hfile _ hrun
    rw [← run_nil.mp hrun, List.append_nil]
    exact ⟨hs, hsaving, hfile⟩
  | cons f mid ih =>
    intro frames s t hs hsaving hfile hquiet hrun
    obtain ⟨s', hstep, hrest⟩ := run_cons.mp hrun
    obtain ⟨s'', hstep', hs', -, hkeep⟩ := hs.step_row (f := f) hsaving hfile
    obtain rfl := Option.some.inj (hstep.symm.trans hstep')
    obtain ⟨hsaving', hfile'⟩ := hkeep (hquiet f List.mem_cons_self)
    have ht := ih hs' hsaving' hfile' (fun g hg => hquiet g (List.mem_cons_of_mem f hg)) hrest
    rwa [List.append_assoc, List.singleton_append] at ht

/-! ## When the file is right -/

/-- A header that reads "Time" alone has no columns. -/
theorem columns_eq_nil {columns : List (List Byte)} (h : headerRow columns = headerRow []) :
    columns = [] := by
  have hlen := congrArg List.length h
  rcases columns with - | ⟨key, columns⟩
  · rfl
  · have hcomma : (ascii ",").length = 1 := by decide
    simp only [headerRow, List.length_append, List.flatMap_cons, List.flatMap_nil, hcomma,
      List.length_nil] at hlen
    omega

/-- Nothing has come in if no key has a value. -/
theorem eq_nil_of_latest {entries : List (List Byte × List Byte)}
    (h : ∀ key, latest entries key = none) : entries = [] := by
  rcases List.eq_nil_or_concat entries with hnil | ⟨front, entry, rfl⟩
  · exact hnil
  · have hkey := h entry.1
    rw [List.concat_eq_append, latest_concat, Function.update_self] at hkey
    cases hkey

/-- **When the file is right**: if no entry has come in by the time the user clicks "Save
File", each time. -/
theorem records_iff (hopens : ∀ f ∈ frames, f.input.opens = true) :
    Records frames ↔ ∀ pre f post, frames = pre ++ f :: post → saving pre = false →
      f.input.click = true → received (pre ++ [f]) = [] := by
  constructor
  · intro hrecords pre f post hcut hsaving hclick
    rw [hcut] at hopens
    obtain ⟨s, hrun, hs⟩ := after_run fun g hg => hopens g (List.mem_append_left _ hg)
    rw [← hs.savingFile] at hsaving
    obtain ⟨s', columns, hstep, hlists, hheader, -⟩ := hrecords pre f post s hcut hrun hsaving hclick
    obtain ⟨s'', hstep', hs', -, -, hwritten⟩ := hs.step_save hsaving hclick
      (hopens f (List.mem_append_right _ List.mem_cons_self))
    obtain rfl := Option.some.inj (hstep.symm.trans hstep')
    -- the header that is written names no column, so the map has to be empty
    have hnil := columns_eq_nil (List.append_cancel_left (hheader.symm.trans hwritten))
    refine eq_nil_of_latest fun key => ?_
    have hnone : key ∉ columns := by
      rw [hnil]
      exact List.not_mem_nil
    rw [hlists.2, not_not, hs'.map] at hnone
    exact hnone
  · intro hempty pre f post s hcut hrun hsaving hclick
    rw [hcut] at hopens
    obtain ⟨s₀, hrun₀, hs⟩ := after_run fun g hg => hopens g (List.mem_append_left _ hg)
    obtain rfl := Option.some.inj (hrun₀.symm.trans hrun)
    obtain ⟨s', hstep, hs', hsaving', hfile', hwritten⟩ := hs.step_save hsaving hclick
      (hopens f (List.mem_append_right _ List.mem_cons_self))
    have hnone := hempty pre f post hcut (hs.savingFile.symm.trans hsaving) hclick
    refine ⟨s', [], hstep, ⟨List.nodup_nil, fun key => ?_⟩, hwritten, ?_⟩
    · rw [hs'.map, hnone]
      exact iff_of_false List.not_mem_nil fun h => h rfl
    · intro mid g rest t hpost hquiet hmid
      obtain ⟨ht, hsaving'', hfile''⟩ := hs'.run_saving mid hsaving' hfile' hquiet hmid
      obtain ⟨t', hlast, -, hrow, -⟩ := ht.step_row (f := g) hsaving'' hfile''
      exact ⟨t', hlast, hrow⟩

/-- A click on "Save File" in a frame in which the given entries come in. -/
def saveFrame (arrivals : List (List Byte × List Byte)) : Frame :=
  ⟨arrivals, ⟨0, ascii "data.csv", true, true⟩⟩

/-- A frame at the given time in which an entry comes in, and the user does nothing. -/
def entryFrame (now : ℤ) (value : List Byte) : Frame :=
  ⟨[(ascii "a", value)], ⟨now, ascii "data.csv", false, true⟩⟩

/-- The user saves first, and then entries come in. -/
def saveFirst : List Frame :=
  [saveFrame [], entryFrame 1 (ascii "1"), entryFrame 2 (ascii "2")]

/-- The file is right: it has no columns, and a row for each of the later frames. -/
theorem records_iff_saveFirst :
    Records saveFirst ∧ ∃ s, run Frame.step saveFirst start₀ = some s ∧
      s.1.written (ascii "data.csv") =
        headerRow [] ++ dataRow 1 [] (fun _ => none) ++ dataRow 2 [] (fun _ => none) := by
  refine ⟨(records_iff (by decide)).mpr fun pre f post hcut hsaving hclick => ?_, ?_⟩
  · rcases pre with - | ⟨first, - | ⟨second, - | ⟨third, pre⟩⟩⟩
    · cases hcut
      rfl
    · -- the panel is saving by then
      cases hcut
      cases hsaving
    · cases hcut
      cases hclick
    · have hlen := congrArg List.length hcut
      simp [saveFirst] at hlen
  · have hwritten : ((run Frame.step saveFirst start₀).map fun s =>
        s.1.written (ascii "data.csv")) = some (headerRow [] ++ dataRow 1 [] (fun _ => none) ++
          dataRow 2 [] (fun _ => none)) := by decide +kernel
    obtain ⟨s, hrun, hfile⟩ := Option.map_eq_some_iff.mp hwritten
    exact ⟨s, hrun, hfile⟩

/-- **A key without a column**: an entry comes in, and the user clicks "Save File". -/
theorem not_records_saveFrame :
    (∀ f ∈ [saveFrame [(ascii "a", ascii "1")]], f.input.opens = true) ∧
      ¬ Records [saveFrame [(ascii "a", ascii "1")]] := by
  refine ⟨fun f hf => by rw [List.mem_singleton.mp hf]; rfl, fun hrecords => ?_⟩
  obtain ⟨s', columns, hstep, hlists, hheader, -⟩ :=
    hrecords [] (saveFrame [(ascii "a", ascii "1")]) [] start₀ rfl rfl rfl rfl
  obtain ⟨s'', hstep', hs', -, -, hwritten⟩ :=
    after_nil.step_save (f := saveFrame [(ascii "a", ascii "1")]) rfl rfl rfl
  obtain rfl := Option.some.inj (hstep.symm.trans hstep')
  have hnil := columns_eq_nil (List.append_cancel_left (hheader.symm.trans hwritten))
  have hkey := (hlists.2 (ascii "a")).mpr (by rw [hs'.map]; decide)
  rw [hnil] at hkey
  exact List.not_mem_nil hkey

end TelemetryPanel

end Houston
