import Houston.Runs

/-!
# Choosing a port: `Util::getAvailablePorts` and `components/ControlPanel.cpp`

The control panel lists the serial devices when the user asks for it, and in every frame as long as
there is none. The user selects an entry of the list, and the port of this entry is opened when
the user attaches. The entry that is selected is read in every frame, whatever has become of the
list in the meantime.

* `getAvailablePorts_eq` — the devices whose names begin as those of serial devices do.
* `ControlPanel.renderPorts_inRange` — one frame reads an entry that there is, and keeps the
  selection inside the list.
* `ControlPanel.port_chosen` — so does every sequence of frames, and the port that is opened is one
  of a serial device that was listed.
-/

namespace Houston

open Runs

/-! ## `Util::getAvailablePorts` -/

/-- How the names of serial devices begin. -/
def prefixes : List String := ["ttyUSB", "ttyACM", "tty.", "cu."]

/-- `filename.compare(0, front.length(), front) == 0` -/
def comparesEqual (filename front : String) : Bool :=
  decide (filename.toList.take front.toList.length = front.toList)

/-- The loop over the prefixes, which ends at the first one that the name begins with. -/
def pushPort (filename : String) : List String → List String → List String
  | [], ports => ports
  | front :: fronts, ports =>
    if comparesEqual filename front then ports ++ ["/dev/" ++ filename]
    else pushPort filename fronts ports

/-- `Util::getAvailablePorts`, of the names in the directory `/dev`, if it exists. -/
def getAvailablePorts : Option (List String) → List String
  | none => []
  | some filenames => filenames.foldl (fun ports filename => pushPort filename prefixes ports) []

/-- The name of a serial device. -/
def Serial (filename : String) : Prop := ∃ front ∈ prefixes, front.toList <+: filename.toList

instance (filename : String) : Decidable (Serial filename) :=
  inferInstanceAs (Decidable (∃ front ∈ prefixes, front.toList <+: filename.toList))

theorem comparesEqual_iff {filename front : String} :
    comparesEqual filename front = true ↔ front.toList <+: filename.toList := by
  rw [comparesEqual, decide_eq_true_eq, List.prefix_iff_eq_take, eq_comm]

/-- A device is pushed once, whichever prefixes its name begins with. -/
theorem pushPort_eq (filename : String) : ∀ (fronts ports : List String),
    pushPort filename fronts ports =
      if ∃ front ∈ fronts, front.toList <+: filename.toList then ports ++ ["/dev/" ++ filename]
      else ports := by
  intro fronts ports
  induction fronts with
  | nil =>
    rw [pushPort, if_neg]
    rintro ⟨front, hfront, -⟩
    exact List.not_mem_nil hfront
  | cons front fronts ih =>
    rw [pushPort]
    by_cases hfront : front.toList <+: filename.toList
    · rw [if_pos (comparesEqual_iff.mpr hfront), if_pos ⟨front, List.mem_cons_self, hfront⟩]
    · rw [if_neg fun h => hfront (comparesEqual_iff.mp h), ih]
      simp only [List.mem_cons, exists_eq_or_imp, hfront, false_or]

/-- **The serial devices**, in the order of the directory. -/
theorem getAvailablePorts_eq (filenames : List String) :
    getAvailablePorts (some filenames) =
      (filenames.filter fun filename => Serial filename).map ("/dev/" ++ ·) := by
  have hfold : ∀ (filenames ports : List String),
      filenames.foldl (fun ports filename => pushPort filename prefixes ports) ports =
        ports ++ (filenames.filter fun filename => Serial filename).map ("/dev/" ++ ·) := by
    intro filenames
    induction filenames with
    | nil => exact fun ports => (List.append_nil ports).symm
    | cons filename filenames ih =>
      intro ports
      have hpush : pushPort filename prefixes ports =
          if Serial filename then ports ++ ["/dev/" ++ filename] else ports :=
        pushPort_eq filename prefixes ports
      rw [List.foldl_cons, ih, hpush]
      by_cases hserial : Serial filename
      · rw [if_pos hserial, List.filter_cons_of_pos (by simpa using hserial),
          List.map_cons, List.append_assoc]
        rfl
      · rw [if_neg hserial, List.filter_cons_of_neg (by simpa using hserial)]
  exact hfold filenames []

example : getAvailablePorts (some ["tty0", "ttyUSB0", "null", "ttyACM1"]) =
    ["/dev/ttyUSB0", "/dev/ttyACM1"] := by decide +kernel

/-- What is listed is a serial device. -/
theorem mem_getAvailablePorts {dev : Option (List String)} {port : String}
    (h : port ∈ getAvailablePorts dev) :
    ∃ filenames filename, dev = some filenames ∧ filename ∈ filenames ∧ Serial filename ∧
      port = "/dev/" ++ filename := by
  cases dev with
  | none => exact absurd h List.not_mem_nil
  | some filenames =>
    rw [getAvailablePorts_eq] at h
    obtain ⟨filename, hmem, rfl⟩ := List.mem_map.mp h
    obtain ⟨hfilename, hserial⟩ := List.mem_filter.mp hmem
    exact ⟨filenames, filename, rfl, hfilename, of_decide_eq_true hserial, rfl⟩

/-! ## The control panel -/

namespace ControlPanel

/-- What the control panel keeps of the ports. -/
structure Ports where
  availablePorts : List String
  selectedPortIndex : ℕ

/-- A control panel that was constructed. -/
def Ports.init : Ports := ⟨[], 0⟩

/-- What a frame finds: what the user does, and the directory `/dev`. -/
structure Input where
  /-- `Refresh Ports` is clicked. -/
  refresh : Bool
  dev : Option (List String)
  /-- The list is open. -/
  beginCombo : Bool
  /-- The entries that are clicked. -/
  selectable : ℕ → Bool

variable {f g : Input} {frames : List Input} {s t : Ports}

/-- The refresh button. -/
def refreshPorts (f : Input) (s : Ports) : Ports :=
  if f.refresh ∨ s.availablePorts = [] then
    { availablePorts := getAvailablePorts f.dev
      selectedPortIndex :=
        if s.selectedPortIndex ≥ (getAvailablePorts f.dev).length then 0 else s.selectedPortIndex }
  else s

/-- The loop over the entries of the open list. -/
def select (f : Input) (n selectedPortIndex : ℕ) : ℕ :=
  (List.range n).foldl (fun index i => if f.selectable i then i else index) selectedPortIndex

/-- The list, which shows the selected entry. -/
def selectPort (f : Input) (s : Ports) : Option Ports :=
  if s.availablePorts ≠ [] then do
    let _ ← s.availablePorts[s.selectedPortIndex]?
    if f.beginCombo then
      some { s with selectedPortIndex := select f s.availablePorts.length s.selectedPortIndex }
    else some s
  else some s

/-- `ControlPanel::render`, as far as the port is concerned. -/
def renderPorts (f : Input) (s : Ports) : Option Ports := selectPort f (refreshPorts f s)

/-- The name that is handed to `setPort` when the user attaches. -/
def portName (s : Ports) : String :=
  if h : s.availablePorts ≠ [] ∧ s.selectedPortIndex < s.availablePorts.length then
    s.availablePorts[s.selectedPortIndex]
  else "COM5"

/-- The selection is inside the list. -/
def InRange (s : Ports) : Prop :=
  s.availablePorts ≠ [] → s.selectedPortIndex < s.availablePorts.length

/-- The ports are listed again, or nothing changes. -/
theorem refreshPorts_cases (f : Input) (s : Ports) :
    (f.refresh = true ∨ s.availablePorts = []) ∧
        (refreshPorts f s).availablePorts = getAvailablePorts f.dev ∨
      ¬ (f.refresh = true ∨ s.availablePorts = []) ∧ refreshPorts f s = s := by
  by_cases hlisted : f.refresh = true ∨ s.availablePorts = []
  · rw [refreshPorts, if_pos hlisted]
    exact Or.inl ⟨hlisted, rfl⟩
  · exact Or.inr ⟨hlisted, if_neg hlisted⟩

theorem refreshPorts_inRange (h : InRange s) (f : Input) : InRange (refreshPorts f s) := by
  by_cases hlisted : f.refresh ∨ s.availablePorts = []
  · rw [refreshPorts, if_pos hlisted]
    intro hsome
    simp only
    split_ifs with hbehind
    · exact List.length_pos_iff.mpr hsome
    · exact Nat.lt_of_not_le hbehind
  · rwa [refreshPorts, if_neg hlisted]

/-- The last entry that is clicked, if there is one. -/
theorem select_cases (f : Input) : ∀ n index : ℕ,
    (select f n index = index ∧ ∀ i < n, f.selectable i = false) ∨
      select f n index < n ∧ f.selectable (select f n index) = true ∧
        ∀ i, select f n index < i → i < n → f.selectable i = false := by
  intro n index
  induction n with
  | zero => exact Or.inl ⟨rfl, fun i hi => absurd hi (Nat.not_lt_zero i)⟩
  | succ n ih =>
    have hstep : select f (n + 1) index = if f.selectable n then n else select f n index := by
      rw [select, List.range_succ, List.foldl_concat]
      rfl
    rw [hstep]
    split_ifs with hclicked
    · exact Or.inr ⟨Nat.lt_succ_self n, hclicked, fun i hlt hle => by omega⟩
    · have hlast : ∀ i, i < n + 1 → ¬ i < n → f.selectable i = false := by
        intro i hi hge
        obtain rfl : i = n := by omega
        exact Bool.eq_false_iff.mpr hclicked
      rcases ih with ⟨hkept, hnone⟩ | ⟨hlt, hchosen, hnone⟩
      · exact Or.inl ⟨hkept, fun i hi => Classical.byCases (hnone i) (hlast i hi)⟩
      · exact Or.inr ⟨Nat.lt_succ_of_lt hlt, hchosen, fun i hgt hi =>
          Classical.byCases (hnone i hgt) (hlast i hi)⟩

theorem select_lt (f : Input) {n index : ℕ} (h : index < n) : select f n index < n := by
  rcases select_cases f n index with ⟨hkept, -⟩ | ⟨hlt, -, -⟩
  · rwa [hkept]
  · exact hlt

/-- The name of the selected entry is handed to `setPort`. -/
theorem getElem?_portName (h : InRange s) (hsome : s.availablePorts ≠ []) :
    s.availablePorts[s.selectedPortIndex]? = some (portName s) := by
  rw [portName, dif_pos ⟨hsome, h hsome⟩, List.getElem?_eq_getElem (h hsome)]

/-- **One frame** reads an entry that there is, and keeps the selection inside the list. -/
theorem renderPorts_inRange (h : InRange s) (f : Input) :
    ∃ t, renderPorts f s = some t ∧ InRange t ∧
      t.availablePorts = (refreshPorts f s).availablePorts ∧
      (f.beginCombo = true → t.availablePorts ≠ [] → t.selectedPortIndex =
        select f t.availablePorts.length (refreshPorts f s).selectedPortIndex) := by
  have hrange := refreshPorts_inRange h f
  rw [renderPorts]
  generalize refreshPorts f s = r at hrange ⊢
  by_cases hsome : r.availablePorts ≠ []
  · rw [selectPort, if_pos hsome, getElem?_portName hrange hsome, Option.bind_eq_bind,
      Option.bind_some]
    by_cases hopen : f.beginCombo
    · rw [if_pos hopen]
      exact ⟨_, rfl, fun _ => select_lt f (hrange hsome), rfl, fun _ _ => rfl⟩
    · rw [if_neg hopen]
      exact ⟨_, rfl, hrange, rfl, fun h => absurd h hopen⟩
  · rw [selectPort, if_neg hsome]
    exact ⟨_, rfl, hrange, rfl, fun _ h => absurd h hsome⟩

/-- **Every sequence of frames** goes through, and the ports were listed in one of them. -/
theorem run_renderPorts : ∀ (frames : List Input) {s : Ports}, InRange s →
    ∃ t, run renderPorts frames s = some t ∧ InRange t ∧
      (t.availablePorts = s.availablePorts ∨
        ∃ g ∈ frames, t.availablePorts = getAvailablePorts g.dev) := by
  intro frames
  induction frames with
  | nil => exact fun {s} hs => ⟨s, rfl, hs, Or.inl rfl⟩
  | cons f frames ih =>
    intro s hs
    obtain ⟨r, hfirst, hr, hports, -⟩ := renderPorts_inRange hs f
    obtain ⟨t, hrest, ht, hlisted⟩ := ih hr
    refine ⟨t, run_cons.mpr ⟨r, hfirst, hrest⟩, ht, ?_⟩
    rcases hlisted with hsame | ⟨g, hg, hlisted⟩
    · rw [hsame, hports]
      rcases refreshPorts_cases f s with ⟨-, hlisted⟩ | ⟨-, hkept⟩
      · exact Or.inr ⟨f, List.mem_cons_self, hlisted⟩
      · exact Or.inl (congrArg Ports.availablePorts hkept)
    · exact Or.inr ⟨g, List.mem_cons_of_mem _ hg, hlisted⟩

/-- **The port that is opened.** After every sequence of frames the next one goes through, and the
user who attaches in it gets `COM5` only if no serial device is found in this very frame.
Otherwise it is a serial device that was listed in one of the frames, in this one if the user
asked for it; and if the user has selected an entry in this frame, it is this one. -/
theorem port_chosen (frames : List Input) (f : Input) :
    ∃ s t, run renderPorts frames Ports.init = some s ∧ renderPorts f s = some t ∧
      (portName t = "COM5" ∧ getAvailablePorts f.dev = [] ∨
        (∃ g ∈ frames ++ [f], (f.refresh = true → g = f) ∧ ∃ filenames filename,
          g.dev = some filenames ∧ filename ∈ filenames ∧ Serial filename ∧
            portName t = "/dev/" ++ filename) ∧
        ∀ i, i < t.availablePorts.length → f.beginCombo = true → f.selectable i = true →
          (∀ j, i < j → f.selectable j = false) → t.availablePorts[i]? = some (portName t)) := by
  obtain ⟨s, hrun, hs, hlisted⟩ := run_renderPorts frames (s := Ports.init) fun h => absurd rfl h
  obtain ⟨t, hrender, ht, hports, hselect⟩ := renderPorts_inRange hs f
  refine ⟨s, t, hrun, hrender, ?_⟩
  -- the frame in which the ports were listed
  have hlast : ∃ g ∈ frames ++ [f], (f.refresh = true → g = f) ∧
      t.availablePorts = getAvailablePorts g.dev ∧ (t.availablePorts = [] → g = f) := by
    rw [hports]
    rcases refreshPorts_cases f s with ⟨-, hlisted⟩ | ⟨hrefresh, hsame⟩
    · exact ⟨f, List.mem_append_right _ List.mem_cons_self, fun _ => rfl, hlisted, fun _ => rfl⟩
    · have hkept : s.availablePorts ≠ [] := fun hempty => hrefresh (Or.inr hempty)
      rw [hsame]
      rcases hlisted with hsame | ⟨g, hg, hlisted⟩
      · exact absurd hsame hkept
      · exact ⟨g, List.mem_append_left _ hg, fun h => absurd (Or.inl h) hrefresh, hlisted,
          fun h => absurd h hkept⟩
  obtain ⟨g, hg, hasked, hlisted, hempty⟩ := hlast
  by_cases hsome : t.availablePorts = []
  · obtain rfl := hempty hsome
    refine Or.inl ⟨?_, hlisted.symm.trans hsome⟩
    rw [portName, dif_neg fun h => h.1 hsome]
  · have hname := getElem?_portName ht hsome
    refine Or.inr ⟨⟨g, hg, hasked, ?_⟩, fun i hi hopen hclicked hnone => ?_⟩
    · exact mem_getAvailablePorts (hlisted ▸ List.mem_of_getElem? hname)
    · have hindex := hselect hopen hsome
      rcases select_cases f t.availablePorts.length (refreshPorts f s).selectedPortIndex with
        ⟨-, hnot⟩ | ⟨hlt, hchosen, hlater⟩
      · exact absurd (hclicked.symm.trans (hnot i hi)) (by decide)
      · rw [← hindex] at hchosen hlater
        have hsame : t.selectedPortIndex = i := by
          rcases Nat.lt_trichotomy t.selectedPortIndex i with hlt | heq | hgt
          · exact absurd (hclicked.symm.trans (hlater i hlt hi)) (by decide)
          · exact heq
          · exact absurd (hchosen.symm.trans (hnone _ hgt)) (by decide)
        rw [← hsame, hname]

end ControlPanel

end Houston
