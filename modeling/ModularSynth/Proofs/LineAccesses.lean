-- How a frame uses delay lines. A line is a ring: it is read some way back from the clock, and then
-- takes something in where the clock is. All that a frame does to lines is to use them so, one after
-- the other. What a delay is heard as is made of what its lines give out.
import Mathlib.Logic.Function.Basic
import ModularSynth.Proofs.DelayLines

namespace ModularSynth

/-! ## Accesses -/

/-- How a delay uses a line in a frame. -/
structure LineAccess where
  line : Nat
  /-- How far back the line is read, as the unit computes it. -/
  shift : UInt16
  /-- What the line gives out there. -/
  given : Signal
  /-- What is put into the line. -/
  taken : Signal

/-- How many frames back the line is read. No shift at all is a whole turn of the ring. -/
def LineAccess.age (a : LineAccess) : Nat :=
  if a.shift = 0 then 65536 else a.shift.toNat

/-- How a channel of a delay uses its lines, up to the first that is missing or has no time. -/
def Delay.accesses (d : Delay) (signal : Signal) :
    (count : Nat) → Cursor → Array DelayLine → List LineAccess
  | 0, _, _ => []
  | count + 1, place, lines =>
    match lines[place.line]?, d.times[place.time]? with
    | some line, some time =>
      let delayed := d.read line time
      { line := place.line
        shift := d.distance time
        given := delayed
        taken := (d.write signal delayed line).sample d.clock } ::
        accesses d signal count ⟨place.time + 1, place.line + 1⟩
          (lines.modify place.line (d.write signal delayed))
    | _, _ => []

/-- A channel of a delay is heard as its dry signal with all that its lines give out, without the
part that is constant. The memory for this is in the last of the lines. -/
def Delay.Heard (d : Delay) (lines : Array DelayLine) (accesses : List LineAccess)
    (signal output : Signal) : Prop :=
  ∃ last line, accesses.getLast? = some last ∧ lines[last.line]? = some line ∧
    output = centered (accesses.foldl (fun sum a => sum + a.given) (d.dry * signal)) line

/-- How a delay uses its lines, each with its user. -/
def RunningUnit.accesses (u : RunningUnit) (d : Delay) (place : Delay.Cursor)
    (lines : Array DelayLine) : List Signal → List (LineUser × LineAccess)
  | [] => []
  | x :: rest =>
    u.accesses d place lines rest ++
      match delayChannels d u.lineCount place lines rest with
      | (_, .error _) => []
      | (lines, .ok (place, _)) =>
        (LineUser.ofChannel u.voice u.slot rest.length u.lineCount).zip
          (d.accesses x u.lineCount place lines)

/-- How a unit uses delay lines in its turn. -/
def Turn.lineAccesses (p : Program) (t : Turn) : List (LineUser × LineAccess) :=
  if t.unit.kind = .delay then
    t.unit.accesses (t.unit.delay p t.moment.machine) ⟨(t.unit.extra 0).toNat, t.moment.line⟩
      t.moment.machine.lines (t.moment.stack.take t.unit.channels)
  else []

/-- How a channel uses delay lines, of all these uses. -/
def onChannel (channel : Nat) (accesses : List (LineUser × LineAccess)) : List LineAccess :=
  (accesses.filter (·.1.channel == channel)).map (·.2)

/-- The turn of a delay, if it is one, leaves each channel on the stack in the place of its signal,
as it is heard of its lines. Channels are counted from the lowest signal up. -/
def Turn.Heard (p : Program) (t : Turn) : Prop :=
  t.unit.kind = .delay → ∃ outputs s, (t.unit.run p).run t.moment = .ok () s ∧
    s.stack = outputs ++ t.moment.stack.drop t.unit.channels ∧
    outputs.length = (t.moment.stack.take t.unit.channels).length ∧
    ∀ channel signal output,
      (t.moment.stack.take t.unit.channels).reverse[channel]? = some signal →
      outputs.reverse[channel]? = some output →
        (t.unit.delay p t.moment.machine).Heard t.moment.machine.lines
          (onChannel channel (t.lineAccesses p)) signal output

/-- How delay lines are used in a frame, in order. -/
def Program.lineAccesses (p : Program) (s : Moment) : List (LineUser × LineAccess) :=
  (p.turns s).flatMap (·.lineAccesses p)

/-! ## Rings -/

/-- What stands in delay lines, by the time of the clock at which it is read. -/
abbrev Rings := Nat → Option (UInt16 → Signal)

/-- What stands in the rings of some delay lines. -/
def rings (lines : Array DelayLine) : Rings :=
  fun i => lines[i]?.map (·.sample)

theorem DelayLine.sample_setSample (l : DelayLine) (time : UInt16) (x : Signal) :
    (l.setSample time x).sample = Function.update l.sample time x := by
  funext t
  unfold sample setSample
  by_cases same : t = time
  · subst same
    rw [Function.update_self]
    exact Vector.getElem_set_self _
  · rw [Function.update_of_ne same]
    have places : time.toNat ≠ t.toNat := fun h => same (UInt16.toNat_inj.mp h.symm)
    exact Vector.getElem_set_ne (UInt16.toNat_lt time) _ places

theorem rings_modify {lines : Array DelayLine} {i : Nat} {line : DelayLine}
    (stands : lines[i]? = some line) (f : DelayLine → DelayLine) :
    rings (lines.modify i f) = Function.update (rings lines) i (some (f line).sample) := by
  funext j
  unfold rings
  rw [Array.getElem?_modify]
  by_cases same : i = j
  · subst same
    rw [if_pos rfl, Function.update_self, stands]
    rfl
  · rw [if_neg same, Function.update_of_ne (Ne.symm same)]

/-- The memory of the filter of a channel is no part of a ring. -/
theorem rings_modify_same {lines : Array DelayLine} {f : DelayLine → DelayLine}
    (same : ∀ line, (f line).sample = line.sample) (i : Nat) :
    rings (lines.modify i f) = rings lines := by
  funext j
  unfold rings
  rw [Array.getElem?_modify]
  split
  · rw [Option.map_map]
    congr 1
    funext line
    exact same line
  · rfl

/-- Accesses, one after the other, have led from some rings to others. Each reads what stands its
shift before the clock, and then puts what it takes in where the clock is. -/
inductive Accessed (clock : UInt16) : List LineAccess → Rings → Rings → Prop
  | nil {rings : Rings} : Accessed clock [] rings rings
  | cons {a : LineAccess} {rest : List LineAccess} {rings rings' : Rings} {ring : UInt16 → Signal}
    (stands : rings a.line = some ring) (given : a.given = ring (clock - a.shift))
    (later : Accessed clock rest
      (Function.update rings a.line (some (Function.update ring clock a.taken))) rings') :
    Accessed clock (a :: rest) rings rings'

namespace Accessed

variable {clock : UInt16} {first later : List LineAccess} {a b c : Rings}

theorem append (h : Accessed clock first a b) (h' : Accessed clock later b c) :
    Accessed clock (first ++ later) a c := by
  induction h with
  | nil => exact h'
  | cons stands given _ ih => exact .cons stands given (ih h')

theorem nil_iff : Accessed clock [] a b ↔ b = a := by
  constructor
  · intro h
    cases h
    rfl
  · rintro rfl
    exact .nil

/-- A line that is not used stays as it is. -/
theorem others (h : Accessed clock first a b) {i : Nat} (other : i ∉ first.map (·.line)) :
    b i = a i := by
  induction h with
  | nil => rfl
  | cons _ _ _ ih =>
    rw [List.map_cons, List.mem_cons, not_or] at other
    rw [ih other.2, Function.update_of_ne other.1]

/-- Where no line is used twice, each is read as it was before, and keeps what it has taken in. -/
theorem each (h : Accessed clock first a b) (apart : (first.map (·.line)).Nodup) :
    ∀ x ∈ first, ∃ ring, a x.line = some ring ∧ x.given = ring (clock - x.shift) ∧
      b x.line = some (Function.update ring clock x.taken) := by
  induction h with
  | nil => simp
  | @cons y rest before _ ring stands given tail ih =>
    rw [List.map_cons, List.nodup_cons] at apart
    intro x hx
    rcases List.mem_cons.mp hx with rfl | hx
    · refine ⟨ring, stands, given, ?_⟩
      rw [tail.others apart.1, Function.update_self]
    · obtain ⟨ring', stands', given', after⟩ := ih apart.2 x hx
      have other : x.line ≠ y.line := by
        intro same
        exact apart.1 (same ▸ List.mem_map_of_mem hx)
      rw [Function.update_of_ne other] at stands'
      exact ⟨ring', stands', given', after⟩

end Accessed

/-! ## One delay -/

/-- What a line remembers for the filter of its channel. -/
def DelayLine.filter (l : DelayLine) : Signal × Signal :=
  (l.dcOutput, l.dcInput)

/-- Part of a delay has used the lines that it has sought, unless there was a fault. -/
def Delay.Uses {α : Type} (clock : UInt16) (accesses : List LineAccess) (sought : List Nat)
    (lines lines' : Array DelayLine) : Except RenderFault α → Prop
  | .ok _ => Accessed clock accesses (rings lines) (rings lines') ∧
      accesses.map (·.line) = sought
  | .error _ => True

namespace Delay

variable (d : Delay)

theorem centered_filter {output : Signal} {line line' : DelayLine}
    (same : line.filter = line'.filter) : centered output line = centered output line' := by
  simp only [DelayLine.filter, Prod.mk.injEq] at same
  rw [centered, centered, same.1, same.2]

/-- A line has changed only where the clock is. -/
theorem write_sample (signal delayed : Signal) (line : DelayLine) :
    (d.write signal delayed line).sample = Function.update line.sample d.clock
      ((d.write signal delayed line).sample d.clock) := by
  unfold write
  simp only [DelayLine.sample_setSample]
  rw [Function.update_self]
  rfl

theorem runLines_uses (signal : Signal) (count : Nat) (place : Cursor) (output : Signal)
    (lines : Array DelayLine) :
    Uses d.clock (d.accesses signal count place lines) (d.sought signal count place lines) lines
      (d.runLines signal count place output lines).1
      (d.runLines signal count place output lines).2 := by
  induction count generalizing place output lines with
  | zero => exact ⟨.nil, rfl⟩
  | succ count ih =>
    unfold runLines accesses sought
    cases hl : lines[place.line]? with
    | none => trivial
    | some line =>
      cases ht : d.times[place.time]? with
      | none => trivial
      | some time =>
        have stands : rings lines place.line = some line.sample := by
          unfold rings
          rw [hl]
          rfl
        have later := ih ⟨place.time + 1, place.line + 1⟩ (output + d.read line time)
          (lines.modify place.line (d.write signal (d.read line time)))
        simp only
        rcases h : (d.runLines signal count ⟨place.time + 1, place.line + 1⟩
          (output + d.read line time)
          (lines.modify place.line (d.write signal (d.read line time)))).2 with e | ⟨place', y⟩
        · trivial
        · rw [h] at later
          obtain ⟨accessed, used⟩ := later
          rw [rings_modify hl, d.write_sample] at accessed
          exact ⟨.cons stands rfl accessed, congrArg _ used⟩

/-- The lines of a channel are heard as the sum of what they give out. -/
theorem runLines_output {signal : Signal} {count : Nat} {place place' : Cursor}
    {output y : Signal} {lines lines' : Array DelayLine}
    (ran : d.runLines signal count place output lines = (lines', .ok (place', y))) :
    y = (d.accesses signal count place lines).foldl (fun sum a => sum + a.given) output := by
  induction count generalizing place output lines with
  | zero =>
    cases ran
    rfl
  | succ count ih =>
    unfold runLines at ran
    unfold accesses
    split at ran
    · cases ran
    · rename_i line hl
      split at ran
      · cases ran
      · rename_i time ht
        rw [hl, ht]
        exact ih ran

/-- The memory of the filter of a channel is left alone. -/
theorem runLines_filter (signal : Signal) (count : Nat) (place : Cursor) (output : Signal)
    (lines : Array DelayLine) (i : Nat) :
    (d.runLines signal count place output lines).1[i]?.map DelayLine.filter =
      lines[i]?.map DelayLine.filter := by
  induction count generalizing place output lines with
  | zero => rfl
  | succ count ih =>
    unfold runLines
    cases lines[place.line]? with
    | none => rfl
    | some line =>
      cases d.times[place.time]? with
      | none => rfl
      | some time =>
        refine (ih _ _ _).trans ?_
        rw [Array.getElem?_modify]
        split
        · rw [Option.map_map]
          rfl
        · rfl

theorem runChannel_uses (count : Nat) (place : Cursor) (signal : Signal)
    (lines : Array DelayLine) :
    Uses d.clock (d.accesses signal count place lines) (d.sought signal count place lines) lines
      (d.runChannel count place signal lines).1 (d.runChannel count place signal lines).2 := by
  have uses := d.runLines_uses signal count place (d.dry * signal) lines
  unfold runChannel
  rcases h : d.runLines signal count place (d.dry * signal) lines with ⟨lines', e | ⟨place', y⟩⟩
  · trivial
  · rw [h] at uses
    by_cases hc : count = 0
    · simp only [hc, if_true]
      trivial
    · simp only [hc, if_false]
      cases lines'[place'.line - 1]? with
      | none => trivial
      | some last =>
        have same : rings (lines'.modify (place'.line - 1) fun line =>
            { line with dcOutput := centered y last, dcInput := y }) = rings lines' := by
          apply rings_modify_same
          intro _
          rfl
        refine ⟨?_, uses.2⟩
        simp only [same]
        exact uses.1

/-- A channel that comes to its end has used each of its lines. -/
theorem accesses_lines {count : Nat} {place place' : Cursor} {signal y : Signal}
    {lines lines' : Array DelayLine}
    (ran : d.runChannel count place signal lines = (lines', .ok (place', y))) :
    (d.accesses signal count place lines).map (·.line) = List.range' place.line count := by
  have uses := d.runChannel_uses count place signal lines
  have seeks := (d.runChannel_seeks count place signal lines).2
  rw [ran] at uses seeks
  exact uses.2.trans seeks.1

theorem accesses_length {count : Nat} {place place' : Cursor} {signal y : Signal}
    {lines lines' : Array DelayLine}
    (ran : d.runChannel count place signal lines = (lines', .ok (place', y))) :
    (d.accesses signal count place lines).length = count := by
  have lengths := congrArg List.length (d.accesses_lines ran)
  rwa [List.length_map, List.length_range'] at lengths

/-- A channel is heard as its lines give out. -/
theorem runChannel_heard {count : Nat} {place place' : Cursor} {signal y : Signal}
    {lines lines' : Array DelayLine}
    (ran : d.runChannel count place signal lines = (lines', .ok (place', y))) :
    d.Heard lines (d.accesses signal count place lines) signal y := by
  have used := d.accesses_lines ran
  have seeks := (d.runLines_seeks signal count place (d.dry * signal) lines).2
  have filters := d.runLines_filter signal count place (d.dry * signal) lines
  unfold runChannel at ran
  rcases summed : d.runLines signal count place (d.dry * signal) lines with
    ⟨lines₁, e | ⟨place₁, sum⟩⟩
  · rw [summed] at ran
    cases ran
  · rw [summed] at ran seeks filters
    by_cases none : count = 0
    · simp [none] at ran
    · simp only [none, if_false] at ran
      cases found : lines₁[place₁.line - 1]? with
      | none => simp [found] at ran
      | some last =>
        obtain rfl : centered sum last = y := by
          rw [found] at ran
          cases ran
          rfl
        -- The lines of the channel have not changed what their filter remembers.
        obtain ⟨line, stands, same⟩ : ∃ line, lines[place₁.line - 1]? = some line ∧
            line.filter = last.filter := by
          have kept := (filters (place₁.line - 1)).symm
          rw [found] at kept
          exact Option.map_eq_some_iff.mp kept
        have lasts : ((d.accesses signal count place lines).map (·.line)).getLast? =
            some (place₁.line - 1) := by
          rw [used, List.getLast?_range', if_neg none, seeks.2]
        rw [List.getLast?_map] at lasts
        obtain ⟨a, ends, here⟩ := Option.map_eq_some_iff.mp lasts
        refine ⟨a, line, ends, here ▸ stands, ?_⟩
        rw [← d.runLines_output summed, centered_filter same]

/-- A channel is heard the same among lines that others have used before. -/
theorem Heard.before {d : Delay} {lines lines' : Array DelayLine} {used : List LineAccess}
    {x y : Signal} (h : d.Heard lines' used x y) {touched : List Nat}
    (only : OnlyLines touched lines lines') (apart : ∀ a ∈ used, a.line ∉ touched) :
    d.Heard lines used x y := by
  obtain ⟨last, line, ends, stands, rfl⟩ := h
  refine ⟨last, line, ends, ?_, rfl⟩
  rw [← only.others _ (apart last (List.mem_of_getLast? ends))]
  exact stands

end Delay

theorem LineUser.channel_of_mem_zip {voice slot channel count : Nat} {used : List LineAccess}
    {a : LineUser × LineAccess} (mem : a ∈ (ofChannel voice slot channel count).zip used) :
    a.1.channel = channel := by
  obtain ⟨_, -, user⟩ := List.mem_map.mp (List.of_mem_zip mem).1
  rw [← user]

section

variable {channel : Nat} {accesses : List (LineUser × LineAccess)}

theorem onChannel_append (first later : List (LineUser × LineAccess)) :
    onChannel channel (first ++ later) = onChannel channel first ++ onChannel channel later := by
  unfold onChannel
  rw [List.filter_append, List.map_append]

theorem onChannel_of_all (all : ∀ a ∈ accesses, a.1.channel = channel) :
    onChannel channel accesses = accesses.map (·.2) := by
  unfold onChannel
  rw [List.filter_eq_self.mpr]
  intro a mem
  exact beq_iff_eq.mpr (all a mem)

theorem onChannel_of_none (none : ∀ a ∈ accesses, a.1.channel ≠ channel) :
    onChannel channel accesses = [] := by
  unfold onChannel
  rw [List.filter_eq_nil_iff.mpr, List.map_nil]
  intro a mem same
  exact none a mem (beq_iff_eq.mp same)

end

namespace RunningUnit

/-- The channels of a delay use their lines one after the other. -/
theorem delayChannels_uses (u : RunningUnit) (d : Delay) (place : Delay.Cursor)
    (lines : Array DelayLine) (xs : List Signal) :
    match delayChannels d u.lineCount place lines xs with
    | (_, .error _) => True
    | (lines', .ok _) =>
      Accessed d.clock ((u.accesses d place lines xs).map (·.2)) (rings lines) (rings lines') ∧
        (u.accesses d place lines xs).map (fun x => (x.1, x.2.line)) =
          u.seeks d place lines xs := by
  induction xs with
  | nil => exact ⟨.nil, rfl⟩
  | cons x rest ih =>
    unfold delayChannels RunningUnit.accesses RunningUnit.seeks
    rcases h : delayChannels d u.lineCount place lines rest with ⟨lines', e | ⟨place', ys⟩⟩
    · trivial
    · rw [h] at ih
      obtain ⟨accessed, used⟩ := ih
      have channel := d.runChannel_uses u.lineCount place' x lines'
      simp only
      rcases hc : d.runChannel u.lineCount place' x lines' with ⟨lines'', e | ⟨place'', y⟩⟩
      · trivial
      · rw [hc] at channel
        obtain ⟨accessed', used'⟩ := channel
        -- Each line of the channel has been used, so no user goes without one.
        have every := d.accesses_length hc
        refine ⟨?_, ?_⟩
        · rw [List.map_append, List.map_snd_zip (by simp [every])]
          exact accessed.append accessed'
        · rw [List.map_append, used, ← used', List.zip_map_right]
          rfl

/-- The channels of a delay are counted from the lowest signal up. -/
theorem accesses_channel (u : RunningUnit) (d : Delay) (place : Delay.Cursor)
    (lines : Array DelayLine) (xs : List Signal) :
    ∀ a ∈ u.accesses d place lines xs, a.1.channel < xs.length := by
  induction xs with
  | nil => exact List.forall_mem_nil _
  | cons x rest ih =>
    unfold RunningUnit.accesses
    refine List.forall_mem_append.mpr ⟨fun a mem => Nat.lt_succ_of_lt (ih a mem), ?_⟩
    split
    · exact List.forall_mem_nil _
    · intro a mem
      exact Nat.lt_succ_of_le (LineUser.channel_of_mem_zip mem).le

/-- The channels of a delay are heard, each as its own lines give out. -/
theorem delayChannels_heard (u : RunningUnit) (d : Delay) {place place' : Delay.Cursor}
    {lines lines' : Array DelayLine} {xs ys : List Signal}
    (ran : delayChannels d u.lineCount place lines xs = (lines', .ok (place', ys))) :
    ys.length = xs.length ∧ ∀ channel x y, xs.reverse[channel]? = some x →
      ys.reverse[channel]? = some y →
        d.Heard lines (onChannel channel (u.accesses d place lines xs)) x y := by
  induction xs generalizing lines' place' ys with
  | nil =>
    cases ran
    refine ⟨rfl, ?_⟩
    rintro channel x y ⟨⟩
  | cons x rest ih =>
    obtain ⟨only, seeks⟩ := u.delayChannels_seeks d place lines rest
    have before := u.accesses_channel d place lines rest
    unfold delayChannels at ran
    unfold RunningUnit.accesses
    rcases h : delayChannels d u.lineCount place lines rest with ⟨lines₁, e | ⟨place₁, zs⟩⟩
    · rw [h] at ran
      cases ran
    · rw [h] at ran only seeks
      obtain ⟨all, next⟩ := seeks
      simp only at ran only ⊢
      rcases hc : d.runChannel u.lineCount place₁ x lines₁ with ⟨lines₂, e | ⟨place₂, z⟩⟩
      · rw [hc] at ran
        cases ran
      · rw [hc] at ran
        cases ran
        obtain ⟨length, heard⟩ := ih h
        refine ⟨congrArg (· + 1) length, ?_⟩
        have own : ∀ a ∈ (LineUser.ofChannel u.voice u.slot rest.length u.lineCount).zip
            (d.accesses x u.lineCount place₁ lines₁), a.1.channel = rest.length :=
          fun a mem => LineUser.channel_of_mem_zip mem
        intro channel x' y hx hy
        have inside := (List.getElem?_eq_some_iff.mp hx).1
        rw [List.length_reverse, List.length_cons] at inside
        rw [List.reverse_cons] at hx hy
        rw [onChannel_append]
        by_cases here : channel = rest.length
        · subst here
          obtain rfl : x = x' := by simpa using hx
          obtain rfl : z = y := by simpa [← length] using hy
          rw [onChannel_of_none fun a mem => (before a mem).ne, List.nil_append,
            onChannel_of_all own, List.map_snd_zip (by simp [d.accesses_length hc])]
          apply (d.runChannel_heard hc).before only
          -- The channels below have used lines that come before those of this one.
          intro a mem touched
          have high : a.line ∈ List.range' place₁.line u.lineCount :=
            d.accesses_lines hc ▸ List.mem_map_of_mem mem
          rw [all, List.zipIdx_map_snd, List.mem_range'_1, LineUser.ofChannels_length] at touched
          rw [List.mem_range'_1, next] at high
          omega
        · have earlier : channel < rest.length := by omega
          rw [List.getElem?_append_left (by simpa using earlier)] at hx
          rw [List.getElem?_append_left (by simpa [length] using earlier)] at hy
          have others : onChannel channel ((LineUser.ofChannel u.voice u.slot rest.length
              u.lineCount).zip (d.accesses x u.lineCount place₁ lines₁)) = [] :=
            onChannel_of_none fun a mem => own a mem ▸ earlier.ne'
          rw [others, List.append_nil]
          exact heard channel x' y hx hy

end RunningUnit

/-! ## Frames -/

/-- In some turns, delay lines have been used as the clock says, which has not moved, and they are
heard. -/
structure TurnsUse (p : Program) (turns : List Turn) (s s' : Moment) : Prop where
  clock : s'.machine.clock = s.machine.clock
  accessed : Accessed s.machine.clock.toUInt16 ((turns.flatMap (·.lineAccesses p)).map (·.2))
    (rings s.machine.lines) (rings s'.machine.lines)
  uses : (turns.flatMap (·.lineAccesses p)).map (fun x => (x.1, x.2.line)) =
    turns.flatMap (·.lineUses p)
  heard : ∀ t ∈ turns, t.Heard p

namespace Program

variable (p : Program)

theorem turnsUse_nil {s s' : Moment} : TurnsUse p [] s s' ↔
    s'.machine.clock = s.machine.clock ∧ rings s'.machine.lines = rings s.machine.lines := by
  constructor
  · intro h
    exact ⟨h.clock, Accessed.nil_iff.mp h.accessed⟩
  · rintro ⟨clock, same⟩
    exact ⟨clock, Accessed.nil_iff.mpr same, rfl, List.forall_mem_nil _⟩

theorem turn_uses (t : Turn) :
    Ends (t.unit.run p) t.moment (fun _ s => TurnsUse p [t] t.moment s) (fun _ _ => True) := by
  by_cases delay : t.unit.kind = .delay
  · have uses := t.unit.delayChannels_uses (t.unit.delay p t.moment.machine)
      ⟨(t.unit.extra 0).toNat, t.moment.line⟩ t.moment.machine.lines
      (t.moment.stack.take t.unit.channels)
    unfold Ends
    cases ran : (t.unit.run p).run t.moment with
    | error e s => trivial
    | ok _ s =>
      have after := ran
      rw [show t.unit.run p = t.unit.runDelay p by unfold RunningUnit.run; rw [delay]] at after
      unfold RunningUnit.runDelay EStateM.run at after
      simp only at after
      rw [show ((t.unit.extra 1).toNat + 1) / 2 = t.unit.lineCount from rfl] at after
      rcases h : RunningUnit.delayChannels (t.unit.delay p t.moment.machine) t.unit.lineCount
        ⟨(t.unit.extra 0).toNat, t.moment.line⟩ t.moment.machine.lines
        (t.moment.stack.take t.unit.channels) with ⟨lines', e | ⟨place, ys⟩⟩
      · rw [h] at after
        cases after
      · rw [h] at uses after
        cases after
        obtain ⟨accessed, used⟩ := uses
        obtain ⟨length, heard⟩ := t.unit.delayChannels_heard _ h
        refine ⟨rfl, ?_, ?_, ?_⟩
        · rw [List.flatMap_singleton, Turn.lineAccesses, if_pos delay]
          exact accessed
        · rw [List.flatMap_singleton, List.flatMap_singleton, Turn.lineAccesses, if_pos delay,
            Turn.lineUses, if_pos delay]
          exact used
        · intro t' mem _
          obtain rfl := List.mem_singleton.mp mem
          refine ⟨ys, _, ran, rfl, length, ?_⟩
          rw [Turn.lineAccesses, if_pos delay]
          exact heard
  · apply (t.unit.run_tape p delay t.moment).mono
    · rintro _ s ⟨⟨lines, -⟩, clock⟩
      refine ⟨clock, ?_, ?_, ?_⟩
      · rw [List.flatMap_singleton, Turn.lineAccesses, if_neg delay, lines]
        exact .nil
      · rw [List.flatMap_singleton, List.flatMap_singleton, Turn.lineAccesses, if_neg delay,
          Turn.lineUses, if_neg delay]
        rfl
      · intro t' mem delay'
        exact absurd (List.mem_singleton.mp mem ▸ delay') delay
    · intro _ _ _
      trivial

theorem accesses_addUp : AddsUp p (TurnsUse p) (fun _ _ _ => True) where
  idle := by
    have same : TurnsUse p [] = fun s s' =>
        s'.machine.clock = s.machine.clock ∧ rings s'.machine.lines = rings s.machine.lines := by
      funext s s'
      exact propext p.turnsUse_nil
    rw [same]
    exact {
      refl := fun _ => ⟨rfl, rfl⟩
      trans := fun first later => ⟨later.1.trans first.1, later.2.trans first.2⟩
      operands := fun _ _ => ⟨rfl, rfl⟩
      ready := fun _ _ _ _ _ => ⟨rfl, rfl⟩ }
  append {ts us a b c} first later := by
    refine ⟨later.clock.trans first.clock, ?_, ?_, ?_⟩
    · have rest := later.accessed
      rw [first.clock] at rest
      rw [List.flatMap_append, List.map_append]
      exact first.accessed.append rest
    · rw [List.flatMap_append, List.map_append, first.uses, later.uses, List.flatMap_append]
    · exact List.forall_mem_append.mpr ⟨first.heard, later.heard⟩
  stop _ := trivial
  fail _ _ := trivial
  turn t _ := p.turn_uses t

/-- A frame has used delay lines, every user of lines the one that it is given, and they are
heard. -/
structure FrameUses (s t : Moment) : Prop where
  clock : t.machine.clock = s.machine.clock
  accessed : Accessed s.machine.clock.toUInt16 ((p.lineAccesses s).map (·.2))
    (rings s.machine.lines) (rings t.machine.lines)
  users : (p.lineAccesses s).map (fun x => (x.1, x.2.line)) = p.bytecode.lineUsers.zipIdx
  heard : ∀ t ∈ p.turns s, t.Heard p

variable {p} {s t : Moment}

/-- A frame of framed code that comes to its end has used the lines of all users. -/
theorem runFrame_uses (framed : ∀ block ∈ p.bytecode.blocks, block.Framed)
    (short : ∀ block ∈ p.bytecode.blocks, block.length ≤ maxUnits)
    (streams : p.bytecode.opcodes = CodeBlock.opcodeStream p.bytecode.blocks ∧
      p.bytecode.operands = CodeBlock.operandStream p.bytecode.blocks)
    (ho : s.operands = p.bytecode.operands) (first : s.line = 0)
    (ran : p.runFrame.run s = .ok () t) : p.FrameUses s t := by
  have frame := (runFrame_addsUp p.accesses_addUp s).of_ok ran
  have lines := (p.runFrame_lines framed short streams ho first).of_ok ran
  exact ⟨frame.clock, frame.accessed, frame.uses.trans lines.2, frame.heard⟩

namespace FrameUses

variable (h : p.FrameUses s t)
include h

/-- No line is used twice. -/
theorem lines_apart : (((p.lineAccesses s).map (·.2)).map (·.line)).Nodup := by
  have lines : ((p.lineAccesses s).map (·.2)).map (·.line) =
      ((p.lineAccesses s).map (fun x => (x.1, x.2.line))).map (·.2) := by
    rw [List.map_map, List.map_map]
    rfl
  rw [lines, h.users, List.zipIdx_map_snd]
  exact List.nodup_range'

theorem same_access {x y : LineUser × LineAccess} (hx : x ∈ p.lineAccesses s)
    (hy : y ∈ p.lineAccesses s) (same : x.2.line = y.2.line) : x = y := by
  have apart := h.lines_apart
  rw [List.map_map] at apart
  exact List.inj_on_of_nodup_map apart hx hy same

/-- A line that is used is read before it takes anything in. -/
theorem access {x : LineUser × LineAccess} (hx : x ∈ p.lineAccesses s) :
    ∃ ring, rings s.machine.lines x.2.line = some ring ∧
      x.2.given = ring (s.machine.clock.toUInt16 - x.2.shift) ∧
      rings t.machine.lines x.2.line =
        some (Function.update ring s.machine.clock.toUInt16 x.2.taken) :=
  h.accessed.each h.lines_apart x.2 (List.mem_map_of_mem hx)

/-- Whatever stands in a line after the frame has stood there before, unless it stands where the
clock is. There stands what the line has taken in. -/
theorem ring_of {i : Nat} {ring' : UInt16 → Signal} (after : rings t.machine.lines i = some ring') :
    ∃ ring, rings s.machine.lines i = some ring ∧
      (∀ time, time ≠ s.machine.clock.toUInt16 → ring' time = ring time) ∧
      ∀ x ∈ p.lineAccesses s, x.2.line = i → ring' s.machine.clock.toUInt16 = x.2.taken := by
  by_cases used : ∃ x ∈ p.lineAccesses s, x.2.line = i
  · obtain ⟨x, hx, rfl⟩ := used
    obtain ⟨ring, before, -, written⟩ := h.access hx
    obtain rfl := Option.some.inj (after.symm.trans written)
    refine ⟨ring, before, ?_, ?_⟩
    · intro time other
      exact Function.update_of_ne other _ _
    · intro y hy same
      rw [h.same_access hy hx same]
      exact Function.update_self ..
  · have unused : i ∉ ((p.lineAccesses s).map (·.2)).map (·.line) := by
      intro member
      rw [List.map_map] at member
      obtain ⟨x, hx, same⟩ := List.mem_map.mp member
      exact used ⟨x, hx, same⟩
    refine ⟨ring', (h.accessed.others unused).symm.trans after, fun _ _ => rfl, ?_⟩
    intro x hx same
    exact absurd ⟨x, hx, same⟩ used

end FrameUses

end Program

end ModularSynth
