-- Delay lines are shared out before a patch plays. A machine holds as many as the delays of the
-- patch ask for, counted from the times of their units; the code hands them out by counts of its own,
-- in which a time too many for two channels and what is too much for a byte is lost. So there are
-- always enough of them.
import Mathlib.Data.List.Nodup
import ModularSynth.Proofs.FrameStarts
import ModularSynth.Proofs.Framing
import ModularSynth.Proofs.LineUsers
import ModularSynth.Proofs.Sessions

namespace ModularSynth

/-! ## Each user has a line -/

/-- Sites in different slots or voices have different users. -/
theorem Site.lineUsers_place {s : Site} {user : LineUser} (h : user ∈ s.lineUsers) :
    user.voice = s.voice ∧ user.slot = s.slot := by
  obtain ⟨channel, -, h⟩ := List.mem_flatMap.mp h
  obtain ⟨number, -, rfl⟩ := List.mem_map.mp h
  exact ⟨rfl, rfl⟩

theorem Site.lineUsers_nodup (s : Site) : s.lineUsers.Nodup := by
  unfold lineUsers LineUser.ofChannels
  rw [List.nodup_flatMap]
  constructor
  · intro channel _
    apply List.Nodup.map _ List.nodup_range
    intro number number' same
    exact congrArg LineUser.number same
  · apply List.Pairwise.imp _ List.nodup_range
    intro channel channel' other user h h'
    obtain ⟨_, -, rfl⟩ := List.mem_map.mp h
    obtain ⟨_, -, same⟩ := List.mem_map.mp h'
    exact other (congrArg LineUser.channel same).symm

namespace Bytecode

variable {b : Bytecode}

theorem lineUsers_nodup (b : Bytecode) : b.lineUsers.Nodup := by
  unfold lineUsers
  rw [List.nodup_flatMap]
  refine ⟨fun s _ => s.lineUsers_nodup, ?_⟩
  apply b.sites_apart.imp
  intro s s' apart user h h'
  obtain ⟨voice, slot⟩ := Site.lineUsers_place h
  obtain ⟨voice', slot'⟩ := Site.lineUsers_place h'
  rcases apart with apart | apart
  · exact apart (voice.symm.trans voice')
  · exact apart (slot.symm.trans slot')

/-- The line of a user is its place among all users. -/
theorem lineOf?_eq_some {user : LineUser} {line : Nat} :
    b.lineOf? user = some line ↔ b.lineUsers[line]? = some user := by
  unfold lineOf?
  rw [List.idxOf?_eq_some_iff, List.getElem?_eq_some_iff]
  constructor
  · rintro ⟨inside, same, -⟩
    exact ⟨inside, same⟩
  · rintro ⟨inside, same⟩
    refine ⟨inside, same, ?_⟩
    intro before less again
    have distinct := b.lineUsers_nodup.getElem_inj_iff.mp (again.trans same.symm)
    omega

end Bytecode

/-! ## How many lines code uses -/

/-- The number of delay lines of a block. -/
def CodeBlock.lineTotal (block : CodeBlock) : Nat :=
  total (block.map fun c => c.channels * c.lineCount)

theorem CodeBlock.lineTotal_append (block more : CodeBlock) :
    lineTotal (block ++ more) = block.lineTotal + more.lineTotal := by
  unfold lineTotal
  rw [List.map_append, total_append]

theorem CodeBlock.lineUsers_length (block : CodeBlock) (voice slot : Nat) :
    ((block.sites voice slot).flatMap (·.lineUsers)).length = block.lineTotal := by
  induction block generalizing slot with
  | nil => rfl
  | cons c block ih =>
    rw [sites, List.zipIdx_cons, List.map_cons, List.flatMap_cons, List.length_append, ← sites, ih,
      Site.lineUsers, LineUser.ofChannels_length]
    rfl

/-- A frame uses the lines of the blocks that its voices play. -/
theorem Bytecode.lineUsers_length (b : Bytecode) :
    b.lineUsers.length = total ((b.blockNumbers b.voices 0).map fun i =>
      CodeBlock.lineTotal (b.blocks[i]?.getD [])) := by
  have all : ∀ left voice block, ((b.sitesFrom left voice block).flatMap (·.lineUsers)).length =
      total ((b.blockNumbers left block).map fun i =>
        CodeBlock.lineTotal (b.blocks[i]?.getD [])) := by
    intro left
    induction left with
    | zero =>
      intro voice block
      rfl
    | succ left ih =>
      intro voice block
      rw [sitesFrom_succ, List.flatMap_append, List.length_append, CodeBlock.lineUsers_length, ih,
        blockNumbers, List.map_cons, total_cons]
  exact all b.voices 0 0

namespace Assembly

/-- The code of a delay uses no more lines, on all channels, than the delay has times. -/
theorem lines_of_delay {u : PatchUnit} (flag : u.param "stereo" = 0 ∨ u.param "stereo" = 1)
    (named : u.kind? = some .delay) (lines : linesPerChannel u ≠ 0) {c : CompiledUnit} {start : Int}
    (opcode : c.opcode = opcodeByte .delay u)
    (operands : c.operands = leadingOperands u ++ [operand start, operand (lineCount u)]) :
    c.channels * c.lineCount ≤ u.varArgs.length := by
  have kind : c.kind? = some .delay := by
    rw [CompiledUnit.kind?, opcode]
    exact kindOf?_opcodeByte .delay flag
  have stereo : c.stereo = u.isStereo := by
    rw [CompiledUnit.stereo, opcode]
    exact opcodeByte_stereo .delay flag
  have count : c.lineCount = ((operand (lineCount u)).toNat + 1) / 2 := by
    have extras : c.operands.drop UnitKind.delay.operandCount =
        [operand start, operand (lineCount u)] := by
      rw [operands, ← leadingOperands_length named, List.drop_left]
    rw [CompiledUnit.lineCount, if_pos kind, RunningUnit.lineCount, RunningUnit.extra,
      show (c.running .delay default 0 0).extras = _ from extras]
    rfl
  have few : c.lineCount ≤ linesPerChannel u := count ▸ lineCount_le lines
  unfold linesPerChannel at few
  rw [CompiledUnit.channels, stereo]
  cases hs : u.isStereo <;> simp only [hs, if_true, Bool.false_eq_true, if_false] at few ⊢ <;> omega

/-- The code of a unit uses no more lines than it has times, and none if it is no delay. -/
theorem Emits.lineTotal_le {patch : Patch} {instrument firstVoice slot delayStart : Nat}
    {u : PatchUnit} {samples known : List SampleOffset} {a : AssembledUnit}
    (h : Emits patch instrument firstVoice slot u delayStart samples a known)
    (flag : u.param "stereo" = 0 ∨ u.param "stereo" = 1)
    (find : (UnitLabel → Bool) → Option UnitLabel) :
    (a.linked find).lineTotal ≤ if u.isActiveOf .delay then u.varArgs.length else 0 := by
  obtain ⟨kind, named, code⟩ := h.code
  have active : u.activeKind? = some kind := (PatchUnit.activeKind?_of_active h.active).trans named
  by_cases delay : kind = .delay
  · subst delay
    rw [if_pos (by simp [PatchUnit.isActiveOf, active])]
    unfold AssembledUnit.linked
    simp only [instructions, named] at code
    split at code
    · simp only [Except.ok.injEq, Prod.mk.injEq] at code
      rw [← code.1]
      exact Nat.zero_le _
    · rename_i lines
      simp only [Except.ok.injEq, Prod.mk.injEq] at code
      rw [← code.1]
      exact lines_of_delay flag named lines rfl rfl
  · have none : ∀ c ∈ a.linked find, c.lineCount = 0 := by
      intro c hc
      obtain ⟨i, hi, rfl⟩ := List.mem_map.mp hc
      apply if_neg
      rw [CompiledUnit.kind?, ((instructions_shape h.active named code).2.2 i hi).1,
        kindOf?_opcodeByte kind flag]
      intro same
      exact delay (Option.some.inj same)
    have zero : (a.linked find).lineTotal ≤ total ((a.linked find).map fun _ => 0) := by
      apply total_map_le
      intro c hc
      rw [none c hc, Nat.mul_zero]
    rw [List.map_const', total_replicate, Nat.mul_zero] at zero
    exact Nat.le_trans zero (Nat.zero_le _)

/-- The code of an instrument uses no more lines than its delays ask for. -/
theorem Assembles.lineTotal_le {patch : Patch} {instrument firstVoice slot : Nat}
    {samples later : List SampleOffset} {units : List (PatchUnit × Nat)}
    {assembled : List AssembledUnit}
    (h : Assembles patch instrument firstVoice slot samples units assembled later)
    (flags : ∀ u ∈ units.map (·.1), u.isActive = true →
      u.param "stereo" = 0 ∨ u.param "stereo" = 1) (before after : List UnitLabel) :
    (linkUnits before after assembled).lineTotal ≤
      total (((units.map (·.1)).filter (·.isActiveOf .delay)).map (·.varArgs.length)) := by
  induction h generalizing before with
  | nil => exact Nat.zero_le _
  | @skip _ _ _ u _ units _ inactive _ ih =>
    have other : u.isActiveOf .delay = false := by
      simp [PatchUnit.isActiveOf, PatchUnit.activeKind?, inactive]
    rw [List.map_cons, List.filter_cons_of_neg (by simp [other])]
    exact ih (fun u hu => flags u (List.mem_cons_of_mem _ hu)) before
  | @emit _ _ _ _ u _ a units rest head _ ih =>
    have here := head.lineTotal_le (flags u List.mem_cons_self head.active)
      (nearest (a.label.toList ++ before) (labels rest ++ after))
    have there := ih (fun u hu => flags u (List.mem_cons_of_mem _ hu)) (a.label.toList ++ before)
    rw [linkUnits, CodeBlock.lineTotal_append, List.map_cons]
    cases delay : u.isActiveOf .delay with
    | true =>
      rw [delay, if_pos rfl] at here
      rw [List.filter_cons_of_pos (by simpa using delay), List.map_cons, total_cons]
      exact Nat.add_le_add here there
    | false =>
      rw [delay, if_neg (by decide)] at here
      rw [List.filter_cons_of_neg (by simp [delay])]
      omega

end Assembly

namespace Compiled

variable {patch : Patch} {bpm : Nat} {b : Bytecode} {assembled : List (List AssembledUnit)}

theorem lineTotal_le (h : Compiled patch bpm b assembled) (flags : patch.StereoFlags) {i : Nat}
    {instrument : Instrument} (hi : patch.instruments[i]? = some instrument) :
    CodeBlock.lineTotal (b.blocks[i]?.getD []) ≤ instrument.delayLinesPerVoice := by
  obtain ⟨_, units, _, _, -, hu, -, same, hs, -⟩ := h.of_instrument hi
  rw [h.blocks_eq flags, Assembly.linkBlocks_getElem?, hu, Option.map_some, Option.getD_some]
  have few := hs.lineTotal_le (by
    rw [same]
    exact flags instrument (List.mem_of_getElem? hi))
  rw [same] at few
  exact few _ _

/-- A frame uses no more delay lines than the patch asks for. -/
theorem lineUsers_le (h : Compiled patch bpm b assembled) (flags : patch.StereoFlags) :
    b.lineUsers.length ≤ patch.numDelayLines := by
  have owners := Patch.total_owners (·.delayLinesPerVoice) patch.instruments
  have asked : total (patch.instruments.map fun i => i.numVoices * i.delayLinesPerVoice) =
      patch.numDelayLines := by
    unfold Patch.numDelayLines
    simp only [Nat.mul_comm]
  rw [← asked, ← owners, b.lineUsers_length]
  -- Voices and blocks are counted side by side: each voice plays the block of its instrument.
  have blocks := congrArg (List.map fun i : Option Nat =>
    CodeBlock.lineTotal ((i >>= (b.blocks[·]?)).getD [])) h.blockNumbers_all
  rw [List.map_map, List.map_map] at blocks
  refine Nat.le_trans (Nat.le_of_eq (congrArg total blocks)) ?_
  apply total_map_le
  intro voice _
  simp only [Function.comp_apply]
  change _ ≤ ((patch.instrumentForVoice voice >>= (patch.instruments[·]?)).map
    (·.delayLinesPerVoice)).getD 0
  cases hi : patch.instrumentForVoice voice with
  | none => exact Nat.zero_le _
  | some i =>
    have inside := Patch.ownerOf_lt hi
    rw [List.length_map] at inside
    have instrument := List.getElem?_eq_getElem inside
    have few := h.lineTotal_le flags instrument
    rw [Option.bind_eq_bind, Option.bind_some, Option.bind_eq_bind, Option.bind_some, instrument]
    exact few

end Compiled

/-! ## Machines with enough lines -/

theorem Machine.reserveLines_enough (m : Machine) (count : Nat) :
    count ≤ (m.reserveLines count).lines.size := by
  unfold reserveLines
  rw [Array.size_append, Array.size_replicate]
  omega

/-- A new patch only adds the lines that are missing. -/
theorem Synth.load_lines (s : Synth) (b : Bytecode) (count : Nat) :
    (s.load b count).machine.lines = (s.machine.reserveLines count).lines := by
  unfold load
  simp only
  split <;> rfl

namespace Program

/-- A frame keeps all delay lines, and a machine that is heard as well. -/
theorem runFrame_size (p : Program) (s : Moment) :
    Ends p.runFrame s (fun _ s' => s'.machine.lines.size = s.machine.lines.size)
      (fun _ s' => s'.machine.lines.size = s.machine.lines.size) :=
  (runFrame_addsUp p.lines_addUp s).mono (fun _ _ uses => uses.only.size)
    fun _ _ seeks => seeks.only.size

theorem render_size (p : Program) (m : Machine) (frames : Nat) (maxTime : Int) :
    (p.render m frames maxTime).machine.lines.size = m.lines.size := by
  apply p.render_keeps (I := (·.lines.size = m.lines.size)) _ _ rfl
  · intro s here
    exact (p.runFrame_size s).mono (fun _ _ kept => kept.trans here) fun _ _ kept => kept.trans here
  · intro _ here
    exact here

theorem starts_size (p : Program) (m : Machine) (frames : Nat) (maxTime : Int) :
    ∀ s ∈ p.starts m frames maxTime, s.machine.lines.size = m.lines.size := by
  apply p.starts_induction (·.machine.lines.size = m.lines.size) m frames maxTime rfl
  rintro s s' ⟨t, ran, rfl⟩ here
  exact ((p.runFrame_size s).of_ok ran).trans here

end Program

namespace SynthSession

variable {options : SynthOptions} {x : SynthSession}

/-- A synth always has the delay lines of its patch. -/
theorem Reached.enough_lines (h : Reached options x) :
    x.patch.numDelayLines ≤ x.synth.machine.lines.size := by
  induction h with
  | create made =>
    obtain ⟨b, -, rfl⟩ := Synth.create_compiled made
    exact Nat.le_of_eq Array.size_replicate.symm
  | @serve x request _ ih =>
    cases request with
    | trigger voice note => exact ih
    | release voice => exact ih
    | render buffer maxTime =>
      exact Nat.le_trans ih (Nat.le_of_eq (Program.render_size _ _ _ _).symm)
    | update patch bpm =>
      rcases x.serve_update patch bpm with same | ⟨b, -, -, served⟩
      · rw [same]
        exact ih
      · rw [served]
        simp only [Synth.load_lines]
        exact Machine.reserveLines_enough _ _

end SynthSession

/-- Delay lines are shared out by the bytecode, before anything runs, and there are enough of them.
Whatever has been asked of a synth, its machine has as many lines as its patch asks for, at least;
every user of lines that the bytecode has is given one of these, and no two are given the same. In
every frame of every rendering, up to the end of the frame or as far as it gets, each line that a
delay looks up is the one that its user is given. A frame that does not fail uses the lines of all
users, and lines that are not used stay as they are. -/
theorem delay_lines_shared_out {options : SynthOptions} {x : SynthSession}
    (reached : x.Reached options) (flags : x.patch.StereoFlags) :
    let p := x.synth.program
    let b := p.bytecode
    x.patch.numDelayLines ≤ x.synth.machine.lines.size ∧
    (∀ user line, b.lineOf? user = some line → line < x.patch.numDelayLines) ∧
    (∀ user user' line, b.lineOf? user = some line → b.lineOf? user' = some line →
      user' = user) ∧
    ∀ frames maxTime, ∀ s ∈ p.starts x.synth.machine frames maxTime,
      s.machine.lines.size = x.synth.machine.lines.size ∧
      (∀ turns, turns <+: p.turns s → ∀ use ∈ turns.flatMap (·.lineUses p),
        b.lineOf? use.1 = some use.2) ∧
      (∀ t, p.runFrame.run s = .ok () t → ∀ user line, b.lineOf? user = some line →
        (user, line) ∈ p.lineUses s) ∧
      Ends p.runFrame s
        (fun _ t => OnlyLines ((p.lineUses s).map (·.2)) s.machine.lines t.machine.lines)
        (fun _ t => OnlyLines ((p.lineUses s).map (·.2)) s.machine.lines t.machine.lines) := by
  intro p b
  obtain ⟨assembled, h⟩ := Bytecode.compile_ok reached.compiled
  refine ⟨reached.enough_lines, ?_, ?_, ?_⟩
  · intro user line given
    rw [Bytecode.lineOf?_eq_some] at given
    have inside := (List.getElem?_eq_some_iff.mp given).1
    exact Nat.lt_of_lt_of_le inside (h.lineUsers_le flags)
  · intro user user' line given given'
    rw [Bytecode.lineOf?_eq_some] at given given'
    exact Option.some.inj (given'.symm.trans given)
  · intro frames maxTime s hs
    obtain ⟨operands, first⟩ := p.starts_operands x.synth.machine frames maxTime s hs
    have frame := p.runFrame_lines (h.blocks_framed flags) (h.block_short flags) (h.streams flags)
      operands first
    have some_uses : p.lineUses s <+: b.lineUsers.zipIdx := by
      cases ran : p.runFrame.run s with
      | ok _ t => exact (frame.of_ok ran).2 ▸ List.prefix_refl _
      | error e t => exact (frame.of_error ran).2
    refine ⟨p.starts_size _ _ _ s hs, ?_, ?_, ?_⟩
    · rintro turns part ⟨user, line⟩ used
      rw [Bytecode.lineOf?_eq_some]
      apply List.mem_zipIdx_iff_getElem?.mp
      apply some_uses.subset
      obtain ⟨later, whole⟩ := part
      unfold Program.lineUses
      rw [← whole, List.flatMap_append]
      exact List.mem_append_left _ used
    · intro t ran user line given
      rw [(frame.of_ok ran).2]
      apply List.mem_zipIdx_iff_getElem?.mpr
      exact Bytecode.lineOf?_eq_some.mp given
    · exact frame.mono (fun _ _ lines => lines.1) fun _ _ lines => lines.1

theorem delay_lines_shared_out_echo :
    ∃ x, SynthSession.Reached {} x ∧ x.patch = echoPatch ∧ x.patch.StereoFlags ∧
      x.synth.program.bytecode.lineUsers = [⟨2, 1, 0, 0⟩, ⟨2, 1, 0, 1⟩] ∧
      2 ≤ x.synth.machine.lines.size ∧
      ∀ frames maxTime, ∀ s ∈ x.synth.program.starts x.synth.machine frames maxTime,
        ∀ use ∈ x.synth.program.lineUses s,
          x.synth.program.bytecode.lineOf? use.1 = some use.2 := by
  obtain ⟨b, compiled, users⟩ : ∃ b, Bytecode.compile echoPatch .all 100 = .ok b ∧
      b.lineUsers = [⟨2, 1, 0, 0⟩, ⟨2, 1, 0, 1⟩] := ⟨_, rfl, by decide +kernel⟩
  obtain ⟨synth, made⟩ := (Synth.create_isOk {}).mpr
    (show ∃ b, Bytecode.compile {} .all 100 = .ok b from ⟨_, rfl⟩)
  have updated := synth.update_of_compiles compiled
  have reached : SynthSession.Reached {} ⟨echoPatch, 100, synth.load b 2⟩ := by
    have served := SynthSession.Reached.serve (.update echoPatch 100) (.create made)
    rw [SynthSession.serve_update_of_ok updated] at served
    exact served
  have flags : echoPatch.StereoFlags := by decide +kernel
  obtain ⟨enough, -, -, frames⟩ := delay_lines_shared_out reached flags
  refine ⟨_, reached, rfl, flags, users, enough, ?_⟩
  intro count maxTime s hs
  exact (frames count maxTime s hs).2.1 _ (List.prefix_refl _)

end ModularSynth
