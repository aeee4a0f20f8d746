-- Which delay lines a frame uses. The lines are not named by the delays but handed out in turn:
-- each delay takes as many as its code says, from the first that no delay before it has taken. So
-- the line that a delay uses is known from the bytecode before anything runs.
import ModularSynth.Proofs.Turns
import ModularSynth.Proofs.UnitFrames

namespace ModularSynth

/-! ## Users of lines -/

/-- What a delay uses a line for. -/
structure LineUser where
  voice : Nat
  slot : Nat
  /-- Channels are counted from the lowest signal on the stack up. -/
  channel : Nat
  /-- The number of the line on its channel. -/
  number : Nat
  deriving DecidableEq, Repr

namespace LineUser

/-- The users of so many lines of a channel. -/
def ofChannel (voice slot channel count : Nat) : List LineUser :=
  (List.range count).map fun number => ⟨voice, slot, channel, number⟩

/-- The users of so many lines on each of so many channels. -/
def ofChannels (voice slot channels count : Nat) : List LineUser :=
  (List.range channels).flatMap fun channel => ofChannel voice slot channel count

@[simp]
theorem ofChannel_length (voice slot channel count : Nat) :
    (ofChannel voice slot channel count).length = count := by
  simp [ofChannel]

@[simp]
theorem ofChannels_length (voice slot channels count : Nat) :
    (ofChannels voice slot channels count).length = channels * count := by
  simp [ofChannels]

theorem ofChannels_succ (voice slot channels count : Nat) :
    ofChannels voice slot (channels + 1) count =
      ofChannels voice slot channels count ++ ofChannel voice slot channels count := by
  simp [ofChannels, List.range_succ]

end LineUser

/-- The number of delay lines of compiled code on each channel, if it is that of a delay. -/
def CompiledUnit.lineCount (c : CompiledUnit) : Nat :=
  if c.kind? = some .delay then (c.running .delay default 0 0).lineCount else 0

/-- The users of the delay lines of a unit. -/
def Site.lineUsers (s : Site) : List LineUser :=
  LineUser.ofChannels s.voice s.slot s.code.channels s.code.lineCount

namespace Bytecode

/-- The users of delay lines in a frame, in order. -/
def lineUsers (b : Bytecode) : List LineUser :=
  b.sites.flatMap (·.lineUsers)

/-- The delay line that a user is given. -/
def lineOf? (b : Bytecode) (user : LineUser) : Option Nat :=
  b.lineUsers.idxOf? user

end Bytecode

/-! ## Uses of lines -/

/-- The lines that a channel of a delay looks up, up to the first that is missing or has no time. -/
def Delay.sought (d : Delay) (signal : Signal) :
    (count : Nat) → Cursor → Array DelayLine → List Nat
  | 0, _, _ => []
  | count + 1, place, lines =>
    place.line ::
      match lines[place.line]?, d.times[place.time]? with
      | some line, some time =>
        sought d signal count ⟨place.time + 1, place.line + 1⟩
          (lines.modify place.line (d.write signal (d.read line time)))
      | _, _ => []

/-- The lines that a delay looks up, each with its user. -/
def RunningUnit.seeks (u : RunningUnit) (d : Delay) (place : Delay.Cursor)
    (lines : Array DelayLine) : List Signal → List (LineUser × Nat)
  | [] => []
  | x :: rest =>
    u.seeks d place lines rest ++
      match delayChannels d u.lineCount place lines rest with
      | (_, .error _) => []
      | (lines, .ok (place, _)) =>
        (LineUser.ofChannel u.voice u.slot rest.length u.lineCount).zip
          (d.sought x u.lineCount place lines)

/-- The lines that a unit uses in its turn. -/
def Turn.lineUses (p : Program) (t : Turn) : List (LineUser × Nat) :=
  if t.unit.kind = .delay then
    t.unit.seeks (t.unit.delay p t.moment.machine) ⟨(t.unit.extra 0).toNat, t.moment.line⟩
      t.moment.machine.lines (t.moment.stack.take t.unit.channels)
  else []

/-- The lines that are used in a frame, in order. -/
def Program.lineUses (p : Program) (s : Moment) : List (LineUser × Nat) :=
  (p.turns s).flatMap (·.lineUses p)

/-! ## Lines of one delay -/

/-- Only some of the lines have changed. -/
structure OnlyLines (touched : List Nat) (lines lines' : Array DelayLine) : Prop where
  size : lines'.size = lines.size
  others : ∀ i, i ∉ touched → lines'[i]? = lines[i]?

namespace OnlyLines

variable {a b : List Nat} {lines lines' lines'' : Array DelayLine}

theorem refl (a : List Nat) (lines : Array DelayLine) : OnlyLines a lines lines :=
  ⟨rfl, fun _ _ => rfl⟩

theorem append (h : OnlyLines a lines lines') (h' : OnlyLines b lines' lines'') :
    OnlyLines (a ++ b) lines lines'' := by
  refine ⟨h'.size.trans h.size, ?_⟩
  intro i other
  rw [List.mem_append, not_or] at other
  exact (h'.others i other.2).trans (h.others i other.1)

theorem modify {i : Nat} (member : i ∈ a) (lines : Array DelayLine)
    (f : DelayLine → DelayLine) : OnlyLines a lines (lines.modify i f) := by
  refine ⟨Array.size_modify, ?_⟩
  intro j other
  rw [Array.getElem?_modify, if_neg]
  rintro rfl
  exact other member

theorem trans (h : OnlyLines a lines lines') (h' : OnlyLines a lines' lines'') :
    OnlyLines a lines lines'' := by
  refine ⟨h'.size.trans h.size, ?_⟩
  intro i other
  exact (h'.others i other).trans (h.others i other)

end OnlyLines

/-- Part of a delay has sought some lines: all that it needs, so that the next line is the one after
them, or those up to a fault. -/
def Delay.Seeks {α β : Type} (sought all : List β) (next : Nat) :
    Except RenderFault (Cursor × α) → Prop
  | .ok (place, _) => sought = all ∧ place.line = next
  | .error _ => sought <+: all

namespace Delay

theorem runLines_seeks (d : Delay) (signal : Signal) (count : Nat) (place : Cursor)
    (output : Signal) (lines : Array DelayLine) :
    OnlyLines (d.sought signal count place lines) lines
        (d.runLines signal count place output lines).1 ∧
      Seeks (d.sought signal count place lines) (List.range' place.line count)
        (place.line + count) (d.runLines signal count place output lines).2 := by
  induction count generalizing place output lines with
  | zero => exact ⟨.refl _ _, rfl, rfl⟩
  | succ count ih =>
    unfold runLines sought
    rw [List.range'_succ]
    cases hl : lines[place.line]? with
    | none => exact ⟨.refl _ _, List.prefix_append [_] _⟩
    | some line =>
      cases ht : d.times[place.time]? with
      | none => exact ⟨.refl _ _, List.prefix_append [_] _⟩
      | some time =>
        obtain ⟨only, seeks⟩ := ih ⟨place.time + 1, place.line + 1⟩ (output + d.read line time)
          (lines.modify place.line (d.write signal (d.read line time)))
        have first : OnlyLines [place.line] lines
            (lines.modify place.line (d.write signal (d.read line time))) :=
          .modify List.mem_cons_self _ _
        refine ⟨first.append only, ?_⟩
        simp only
        rcases h : (d.runLines signal count ⟨place.time + 1, place.line + 1⟩
          (output + d.read line time)
          (lines.modify place.line (d.write signal (d.read line time)))).2 with e | ⟨place', y⟩
        · rw [h] at seeks
          exact List.cons_prefix_cons.mpr ⟨rfl, seeks⟩
        · rw [h] at seeks
          obtain ⟨all, next⟩ := seeks
          refine ⟨congrArg _ all, next.trans ?_⟩
          exact (Nat.add_assoc ..).trans (congrArg _ (Nat.add_comm ..))

/-- The memory of the filter of a channel is in the last of its lines. -/
theorem runChannel_seeks (d : Delay) (count : Nat) (place : Cursor) (signal : Signal)
    (lines : Array DelayLine) :
    OnlyLines (d.sought signal count place lines) lines
        (d.runChannel count place signal lines).1 ∧
      Seeks (d.sought signal count place lines) (List.range' place.line count)
        (place.line + count) (d.runChannel count place signal lines).2 := by
  obtain ⟨only, seeks⟩ := d.runLines_seeks signal count place (d.dry * signal) lines
  unfold runChannel
  rcases h : d.runLines signal count place (d.dry * signal) lines with ⟨lines', e | ⟨place', y⟩⟩
  · rw [h] at only seeks
    exact ⟨only, seeks⟩
  · rw [h] at only seeks
    obtain ⟨all, next⟩ := seeks
    rw [all] at only ⊢
    by_cases hc : count = 0
    · simp only [hc, if_true]
      exact ⟨hc ▸ only, List.prefix_refl _⟩
    · simp only [hc, if_false]
      cases lines'[place'.line - 1]? with
      | none => exact ⟨only, List.prefix_refl _⟩
      | some last =>
        have member : place'.line - 1 ∈ List.range' place.line count := by
          rw [List.mem_range'_1]
          omega
        simp only
        exact ⟨only.trans (.modify member _ _), rfl, next⟩

end Delay

/-- Users go with lines in turn, as far as there are lines. -/
theorem prefix_zip {α β : Type} (xs : List α) {ys zs : List β} (h : ys <+: zs) :
    xs.zip ys <+: xs.zip zs := by
  obtain ⟨more, rfl⟩ := h
  induction ys generalizing xs with
  | nil => simp
  | cons y ys ih =>
    cases xs with
    | nil => simp
    | cons x xs => exact List.cons_prefix_cons.mpr ⟨rfl, ih xs⟩

namespace RunningUnit

/-- The channels of a delay use the lines from the next one on, as many as it has on each. -/
theorem delayChannels_seeks (u : RunningUnit) (d : Delay) (place : Delay.Cursor)
    (lines : Array DelayLine) (xs : List Signal) :
    OnlyLines ((u.seeks d place lines xs).map (·.2)) lines
        (delayChannels d u.lineCount place lines xs).1 ∧
      Delay.Seeks (u.seeks d place lines xs)
        ((LineUser.ofChannels u.voice u.slot xs.length u.lineCount).zipIdx place.line)
        (place.line + xs.length * u.lineCount)
        (delayChannels d u.lineCount place lines xs).2 := by
  induction xs with
  | nil => exact ⟨.refl _ _, rfl, by simp⟩
  | cons x rest ih =>
    obtain ⟨only, seeks⟩ := ih
    unfold delayChannels RunningUnit.seeks
    rw [List.length_cons, LineUser.ofChannels_succ, List.zipIdx_append,
      LineUser.ofChannels_length]
    rcases h : delayChannels d u.lineCount place lines rest with ⟨lines', e | ⟨place', ys⟩⟩
    · rw [h] at only seeks
      simp only [List.append_nil]
      exact ⟨only, seeks.trans (List.prefix_append _ _)⟩
    · rw [h] at only seeks
      obtain ⟨all, next⟩ := seeks
      obtain ⟨only', seeks'⟩ := d.runChannel_seeks u.lineCount place' x lines'
      rw [next] at seeks'
      have channel : (LineUser.ofChannel u.voice u.slot rest.length u.lineCount).zipIdx
          (place.line + rest.length * u.lineCount) =
          (LineUser.ofChannel u.voice u.slot rest.length u.lineCount).zip
            (List.range' (place.line + rest.length * u.lineCount) u.lineCount) := by
        rw [List.zipIdx_eq_zip_range', LineUser.ofChannel_length]
      rw [all] at only ⊢
      rw [channel]
      simp only [List.map_append]
      rcases hc : d.runChannel u.lineCount place' x lines' with ⟨lines'', e | ⟨place'', y⟩⟩
      · rw [hc] at only' seeks'
        have few : (d.sought x u.lineCount place' lines').length ≤ u.lineCount := by
          have := seeks'.length_le
          rwa [List.length_range'] at this
        rw [List.map_snd_zip (by simpa using few)]
        refine ⟨only.append only', ?_⟩
        exact (List.prefix_append_right_inj _).mpr (prefix_zip _ seeks')
      · rw [hc] at only' seeks'
        obtain ⟨every, last⟩ := seeks'
        rw [every] at only' ⊢
        rw [List.map_snd_zip (by simp)]
        refine ⟨only.append only', rfl, ?_⟩
        rw [Nat.succ_mul, ← Nat.add_assoc]
        exact last

end RunningUnit

/-! ## Lines of one turn -/

/-- The delay lines are the same, and so is the next one. -/
def SameLines (s s' : Moment) : Prop :=
  s'.machine.lines = s.machine.lines ∧ s'.line = s.line

theorem SameLines.lasting : Lasting SameLines where
  refl _ := ⟨rfl, rfl⟩
  trans first later := ⟨later.1.trans first.1, later.2.trans first.2⟩
  operands _ _ := ⟨rfl, rfl⟩
  ready _ _ _ _ _ := ⟨rfl, rfl⟩

/-- Nothing that delay lines have to do with is changed. -/
structure SameTape (s s' : Moment) : Prop where
  lines : SameLines s s'
  clock : s'.machine.clock = s.machine.clock

theorem SameTape.lasting : Lasting SameTape where
  refl s := ⟨SameLines.lasting.refl s, rfl⟩
  trans first later := ⟨SameLines.lasting.trans first.lines later.lines,
    later.clock.trans first.clock⟩
  operands _ _ := ⟨⟨rfl, rfl⟩, rfl⟩
  ready _ _ _ _ _ := ⟨⟨rfl, rfl⟩, rfl⟩

namespace RunningUnit

theorem mixTop_tape (u : RunningUnit) (channel : Nat) (gain : Signal) (stack : Stack)
    (m : Machine) : (u.mixTop channel gain stack m).lines = m.lines ∧
      (u.mixTop channel gain stack m).clock = m.clock := by
  unfold mixTop
  split <;> exact ⟨rfl, rfl⟩

theorem noise_tape (u : RunningUnit) (n : Nat) (s : Moment) : SameTape s (u.noise n s) := by
  induction n generalizing s with
  | zero => exact ⟨⟨rfl, rfl⟩, rfl⟩
  | succ n ih =>
    have drawn : SameTape s { s with
        machine := s.machine.random.2
        stack := s.machine.random.1.bend (u.param 0) * u.param 1 :: s.stack } :=
      ⟨⟨rfl, rfl⟩, rfl⟩
    exact SameTape.lasting.trans drawn (ih _)

/-- Only a delay has to do with delay lines. -/
theorem run_tape (u : RunningUnit) (p : Program) (other : u.kind ≠ .delay) :
    Preserves SameTape (u.run p) := by
  have lasting := SameTape.lasting
  have mix : ∀ channel gain s, SameTape s
      { s with machine := u.mixTop channel gain s.stack s.machine
               stack := s.stack.drop u.channels } := by
    intro channel gain s
    obtain ⟨lines, clock⟩ := u.mixTop_tape channel gain s.stack s.machine
    exact ⟨⟨lines, rfl⟩, clock⟩
  unfold run
  cases hk : u.kind <;> simp only
  case delay => exact absurd hk other
  case sync => exact .pure lasting _
  case noise => exact .modify fun s => u.noise_tape _ s
  case out => exact .modify (mix _ _)
  case outaux =>
    apply Preserves.modify
    intro s
    obtain ⟨lines, clock⟩ := u.mixTop_tape 0 (u.param 0) s.stack s.machine
    obtain ⟨lines', clock'⟩ := u.mixTop_tape 2 (u.param 1) s.stack
      (u.mixTop 0 (u.param 0) s.stack s.machine)
    exact ⟨⟨lines'.trans lines, rfl⟩, clock'.trans clock⟩
  case aux =>
    apply Preserves.bind lasting (u.busChannel_preserves lasting)
    intro channel
    exact .modify (mix _ _)
  case input =>
    apply Preserves.bind lasting (u.busChannel_preserves lasting)
    intro channel
    apply Preserves.ite
    · apply Preserves.bind lasting
      · exact .modify fun s => ⟨⟨rfl, rfl⟩, rfl⟩
      · intro _
        exact .modify fun s => ⟨⟨rfl, rfl⟩, rfl⟩
    · exact .modify fun s => ⟨⟨rfl, rfl⟩, rfl⟩
  case send =>
    unfold send
    apply Preserves.ite
    · exact .throw lasting _
    · exact .modify fun s => ⟨⟨rfl, rfl⟩, rfl⟩
  case speed =>
    unfold speed
    apply Preserves.modify
    intro s
    split
    · exact lasting.refl s
    · exact ⟨⟨rfl, rfl⟩, rfl⟩
  case oscillator =>
    unfold runOscillator
    simp only
    split
    · apply Preserves.bind lasting
      · exact .modify fun s => ⟨⟨rfl, rfl⟩, rfl⟩
      · intro _
        exact .throw lasting _
    · exact .modify fun s => ⟨⟨rfl, rfl⟩, rfl⟩
  all_goals exact .modify fun s => ⟨⟨rfl, rfl⟩, rfl⟩

end RunningUnit

namespace Turn

variable {p : Program} {t : Turn}

/-- The code of a delay says how many lines it uses. -/
theorem Ready.lineUsers (h : t.Ready) :
    t.site.lineUsers = if t.unit.kind = .delay then
      LineUser.ofChannels t.unit.voice t.unit.slot t.unit.channels t.unit.lineCount
    else [] := by
  unfold Site.lineUsers CompiledUnit.lineCount
  rw [h.runs.kind]
  by_cases delay : t.unit.kind = .delay
  · have channels : t.site.code.channels = t.unit.channels := by
      unfold CompiledUnit.channels RunningUnit.channels
      rw [h.runs.stereo]
    have count : (t.site.code.running .delay default 0 0).lineCount = t.unit.lineCount := by
      unfold RunningUnit.lineCount RunningUnit.extra
      rw [h.runs.extras, delay]
      rfl
    rw [if_pos delay, if_pos (congrArg _ delay), channels, count]
    rfl
  · rw [if_neg delay, if_neg]
    · simp [LineUser.ofChannels, LineUser.ofChannel]
    · intro same
      exact delay (Option.some.inj same)

end Turn

/-! ## Lines of a frame -/

/-- In some turns the lines have been used that the code of the units says, from the next one on. -/
structure UsesLines (p : Program) (turns : List Turn) (s s' : Moment) : Prop where
  only : OnlyLines ((turns.flatMap (·.lineUses p)).map (·.2)) s.machine.lines s'.machine.lines
  uses : turns.flatMap (·.lineUses p) =
    (turns.flatMap (·.site.lineUsers)).zipIdx s.line
  next : s'.line = s.line + (turns.flatMap (·.site.lineUsers)).length

/-- In turns that a fault has cut off, some first ones of these lines have been used. -/
structure SeeksLines (p : Program) (turns : List Turn) (s s' : Moment) : Prop where
  only : OnlyLines ((turns.flatMap (·.lineUses p)).map (·.2)) s.machine.lines s'.machine.lines
  uses : turns.flatMap (·.lineUses p) <+:
    (turns.flatMap (·.site.lineUsers)).zipIdx s.line

namespace Program

variable (p : Program)

theorem usesLines_nil {s s' : Moment} : UsesLines p [] s s' ↔ SameLines s s' := by
  constructor
  · intro h
    exact ⟨Array.ext_getElem? fun i => h.only.others i List.not_mem_nil, h.next⟩
  · rintro ⟨lines, line⟩
    exact ⟨lines ▸ .refl _ _, rfl, line⟩

theorem turn_lines (t : Turn) (ready : t.Ready) :
    Ends (t.unit.run p) t.moment (fun _ s => UsesLines p [t] t.moment s)
      (fun _ s => SeeksLines p [t] t.moment s) := by
  have users := ready.lineUsers
  by_cases delay : t.unit.kind = .delay
  · have uses : t.lineUses p = t.unit.seeks (t.unit.delay p t.moment.machine)
        ⟨(t.unit.extra 0).toNat, t.moment.line⟩ t.moment.machine.lines
        (t.moment.stack.take t.unit.channels) := if_pos delay
    have all : (t.moment.stack.take t.unit.channels).length = t.unit.channels := by
      have enough := ready.enough
      rw [delay] at enough
      apply List.length_take_of_le
      unfold RunningUnit.channels
      cases stereo : t.unit.stereo <;> rw [stereo] at enough <;> exact enough
    obtain ⟨only, seeks⟩ := t.unit.delayChannels_seeks (t.unit.delay p t.moment.machine)
      ⟨(t.unit.extra 0).toNat, t.moment.line⟩ t.moment.machine.lines
      (t.moment.stack.take t.unit.channels)
    rw [← uses, all] at seeks
    rw [← uses] at only
    rw [if_pos delay] at users
    rw [show t.unit.run p = t.unit.runDelay p by unfold RunningUnit.run; rw [delay]]
    unfold Ends RunningUnit.runDelay EStateM.run
    simp only
    rw [show ((t.unit.extra 1).toNat + 1) / 2 = t.unit.lineCount from rfl]
    rcases h : RunningUnit.delayChannels (t.unit.delay p t.moment.machine) t.unit.lineCount
      ⟨(t.unit.extra 0).toNat, t.moment.line⟩ t.moment.machine.lines
      (t.moment.stack.take t.unit.channels) with ⟨lines', e | ⟨place, ys⟩⟩
    · rw [h] at only seeks
      refine ⟨?_, ?_⟩
      · rw [List.flatMap_singleton]
        exact only
      · rw [List.flatMap_singleton, List.flatMap_singleton, users]
        exact seeks
    · rw [h] at only seeks
      obtain ⟨every, next⟩ := seeks
      refine ⟨?_, ?_, ?_⟩
      · rw [List.flatMap_singleton]
        exact only
      · rw [List.flatMap_singleton, List.flatMap_singleton, users]
        exact every
      · rw [List.flatMap_singleton, users, LineUser.ofChannels_length]
        exact next
  · rw [if_neg delay] at users
    have none : t.lineUses p = [] := if_neg delay
    apply (t.unit.run_tape p delay t.moment).mono
    · rintro _ s ⟨⟨lines, line⟩, -⟩
      refine ⟨lines ▸ .refl _ _, ?_, ?_⟩
      · simp [none, users]
      · simpa [users] using line
    · rintro _ s ⟨⟨lines, -⟩, -⟩
      refine ⟨lines ▸ .refl _ _, ?_⟩
      simp [none]

/-- The lines that turns use add up. -/
theorem lines_addUp : AddsUp p (UsesLines p) (SeeksLines p) where
  idle := by
    have same : UsesLines p [] = SameLines := by
      funext s s'
      exact propext p.usesLines_nil
    rw [same]
    exact SameLines.lasting
  append {ts us a b c} first later := by
    refine ⟨?_, ?_, ?_⟩
    · rw [List.flatMap_append, List.map_append]
      exact first.only.append later.only
    · rw [List.flatMap_append, List.flatMap_append, List.zipIdx_append, first.uses, later.uses,
        first.next]
    · rw [List.flatMap_append, List.length_append, later.next, first.next, Nat.add_assoc]
  stop h := ⟨h.only, h.uses ▸ List.prefix_refl _⟩
  fail {ts us a b c} first later := by
    refine ⟨?_, ?_⟩
    · rw [List.flatMap_append, List.map_append]
      exact first.only.append later.only
    · rw [List.flatMap_append, List.flatMap_append, List.zipIdx_append, first.uses]
      have rest := later.uses
      rw [first.next] at rest
      exact (List.prefix_append_right_inj _).mpr rest
  turn := p.turn_lines

/-- In framed code, the users of delay lines in a frame are given the lines in order, from the first
on, until the frame fails. All other lines stay as they are. -/
theorem runFrame_lines (framed : ∀ block ∈ p.bytecode.blocks, block.Framed)
    (short : ∀ block ∈ p.bytecode.blocks, block.length ≤ maxUnits)
    (streams : p.bytecode.opcodes = CodeBlock.opcodeStream p.bytecode.blocks ∧
      p.bytecode.operands = CodeBlock.operandStream p.bytecode.blocks)
    {s : Moment} (ho : s.operands = p.bytecode.operands) (first : s.line = 0) :
    Ends p.runFrame s (fun _ s' =>
        OnlyLines ((p.lineUses s).map (·.2)) s.machine.lines s'.machine.lines ∧
          p.lineUses s = p.bytecode.lineUsers.zipIdx)
      (fun _ s' => OnlyLines ((p.lineUses s).map (·.2)) s.machine.lines s'.machine.lines ∧
        p.lineUses s <+: p.bytecode.lineUsers.zipIdx) := by
  have sites : ∀ ts : List Turn,
      ts.flatMap (·.site.lineUsers) = (ts.map (·.site)).flatMap (·.lineUsers) := by
    intro ts
    rw [List.flatMap_map]
  apply ((runFrame_addsUp p.lines_addUp s).and (p.turns_sites framed short streams ho)).mono
  · rintro _ s' ⟨lines, all⟩
    refine ⟨lines.only, ?_⟩
    have uses := lines.uses
    rw [sites, all, first] at uses
    exact uses
  · rintro _ s' ⟨lines, ⟨more, some_sites⟩⟩
    refine ⟨lines.only, ?_⟩
    have uses := lines.uses
    rw [sites, first] at uses
    unfold Bytecode.lineUsers
    rw [← some_sites, List.flatMap_append, List.zipIdx_append]
    exact uses.trans (List.prefix_append _ _)

end Program

end ModularSynth
