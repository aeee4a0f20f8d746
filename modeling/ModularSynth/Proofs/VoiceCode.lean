-- The opcodes that each voice plays. The voices share the instruments of one stream of opcodes, and
-- the bits of a bytecode say which voices share one. So the same stream can be divided among voices
-- in different ways, and the opcodes alone do not say what a voice plays.
import ModularSynth.Proofs.VoiceSchedule

namespace ModularSynth

/-! ## Instruments of a stream -/

/-- Does an opcode byte end an instrument? -/
def endsInstrument (op : UInt8) : Bool :=
  op >>> 1 == 0

/-- The opcodes up to the end of the first instrument. -/
def firstCode (ops : List UInt8) : List UInt8 :=
  ops.takeWhile (!endsInstrument ·)

/-- The opcodes after the end of the first instrument. -/
def laterCode (ops : List UInt8) : List UInt8 :=
  (ops.dropWhile (!endsInstrument ·)).drop 1

/-- The opcodes after so many instruments. -/
def codeAfter (ops : List UInt8) : Nat → List UInt8
  | 0 => ops
  | i + 1 => laterCode (codeAfter ops i)

/-- The opcodes of an instrument. -/
def instrumentCode (ops : List UInt8) (i : Nat) : List UInt8 :=
  firstCode (codeAfter ops i)

theorem firstCode_append {code : List UInt8} (units : ∀ op ∈ code, op >>> 1 ≠ 0)
    (rest : List UInt8) : firstCode (code ++ 0 :: rest) = code := by
  unfold firstCode
  rw [List.takeWhile_append_of_pos]
  · simp [endsInstrument]
  · intro op hop
    simp [endsInstrument, units op hop]

theorem laterCode_append {code : List UInt8} (units : ∀ op ∈ code, op >>> 1 ≠ 0)
    (rest : List UInt8) : laterCode (code ++ 0 :: rest) = rest := by
  unfold laterCode
  rw [List.dropWhile_append_of_pos]
  · simp [endsInstrument]
  · intro op hop
    simp [endsInstrument, units op hop]

namespace CodeBlock

theorem Framed.units {block : CodeBlock} (h : block.Framed) :
    ∀ op ∈ block.opcodes, op >>> 1 ≠ 0 := by
  intro op hop
  obtain ⟨c, hc, rfl⟩ := List.mem_map.mp hop
  exact (h c hc).opcode_ne

theorem codeAfter_stream {blocks : List CodeBlock} (framed : ∀ block ∈ blocks, block.Framed)
    (i : Nat) : codeAfter (opcodeStream blocks) i = opcodeStream (blocks.drop i) := by
  induction i with
  | zero => rfl
  | succ i ih =>
    rw [codeAfter, ih]
    cases hb : blocks.drop i with
    | nil =>
      have more : blocks.drop (i + 1) = [] := by
        rw [← List.drop_drop, hb, List.drop_nil]
      rw [more]
      rfl
    | cons block rest =>
      have member : block ∈ blocks := List.mem_of_mem_drop (by rw [hb]; exact List.mem_cons_self)
      have more : blocks.drop (i + 1) = rest := by
        rw [← List.drop_drop, hb, List.drop_one, List.tail_cons]
      rw [opcodeStream_cons, laterCode_append (framed block member).units, more]

/-- The opcodes of an instrument are those of its block. -/
theorem instrumentCode_stream {blocks : List CodeBlock} (framed : ∀ block ∈ blocks, block.Framed)
    {i : Nat} {block : CodeBlock} (hb : blocks[i]? = some block) :
    instrumentCode (opcodeStream blocks) i = block.opcodes := by
  unfold instrumentCode
  rw [codeAfter_stream framed]
  obtain ⟨hlt, rfl⟩ := List.getElem?_eq_some_iff.mp hb
  rw [List.drop_eq_getElem_cons hlt, opcodeStream_cons]
  exact firstCode_append (framed _ (List.getElem_mem hlt)).units _

/-- A stream has as many ends as blocks. -/
theorem stream_ends {blocks : List CodeBlock} (framed : ∀ block ∈ blocks, block.Framed) :
    (opcodeStream blocks).countP endsInstrument = blocks.length := by
  induction blocks with
  | nil => rfl
  | cons block rest ih =>
    have none : block.opcodes.countP endsInstrument = 0 := by
      rw [List.countP_eq_zero]
      intro op hop
      simp [endsInstrument, (framed block List.mem_cons_self).units op hop]
    have last : endsInstrument 0 = true := rfl
    rw [opcodeStream_cons, List.countP_append, none, List.countP_cons_of_pos last,
      ih fun block hb => framed block (List.mem_cons_of_mem _ hb), List.length_cons]
    omega

end CodeBlock

/-! ## The code of a voice -/

namespace Program

variable (p : Program)

/-- The opcodes that each of so many voices plays, from a place in the stream on. -/
def codesFrom : (left : Nat) → List UInt8 → List (List UInt8)
  | 0, _ => []
  | left + 1, ops =>
    firstCode ops :: codesFrom left (if p.repeats left then ops else laterCode ops)

/-- The opcodes that a voice plays. -/
def code (voice : Nat) : List UInt8 :=
  (p.codesFrom p.bytecode.voices p.bytecode.opcodes)[voice]?.getD []

theorem codesFrom_length (left : Nat) (ops : List UInt8) :
    (p.codesFrom left ops).length = left := by
  induction left generalizing ops with
  | zero => rfl
  | succ left ih =>
    rw [codesFrom, List.length_cons, ih]

/-- The voices play the opcodes of their blocks. -/
theorem codesFrom_blocks (ops : List UInt8) (left i : Nat) :
    p.codesFrom left (codeAfter ops i) =
      (p.bytecode.blockNumbers left i).map (instrumentCode ops) := by
  induction left generalizing i with
  | zero => rfl
  | succ left ih =>
    rw [codesFrom, Bytecode.blockNumbers, List.map_cons,
      show p.bytecode.shares left = p.repeats left from rfl]
    congr 1
    cases p.repeats left with
    | true => exact ih i
    | false => exact ih (i + 1)

/-- Running the units of a voice is running its code, up to the end of its instrument. -/
theorem runUnits_firstCode (voice slot : Nat) (ops : List UInt8) (s : Moment) :
    (p.runUnits voice slot ops).run s =
      (p.runOpcodes voice slot (firstCode ops) >>= fun _ =>
        if ops.any endsInstrument then pure (laterCode ops) else throw .opcodesEnded).run s := by
  induction ops generalizing slot s with
  | nil => rfl
  | cons op rest ih =>
    unfold runUnits firstCode laterCode
    by_cases last : op >>> 1 = 0
    · have ends : endsInstrument op = true := by simp [endsInstrument, last]
      simp [last, ends, runOpcodes]
    · have goes_on : endsInstrument op = false := by simp [endsInstrument, last]
      simp only [last, if_false, goes_on, Bool.not_false, List.takeWhile_cons_of_pos,
        List.dropWhile_cons_of_pos, List.any_cons, Bool.false_or, runOpcodes, EStateM.run_bind]
      cases (p.runUnit voice slot op).run s with
      | error e s' => rfl
      | ok _ s' =>
        have later := ih (slot + 1) s'
        rw [EStateM.run_bind] at later
        exact later

end Program

namespace Compiled

variable {patch : Patch} {bpm : Nat} {p : Program} {assembled : List (List AssembledUnit)}

/-- A voice plays the opcodes of its instrument. -/
theorem code_eq (h : Compiled patch bpm p.bytecode assembled) {voice i : Nat}
    (hi : patch.instrumentForVoice voice = some i) :
    p.code voice = instrumentCode p.bytecode.opcodes i := by
  have blocks := h.blockNumber_of_voice voice
  have codes := p.codesFrom_blocks p.bytecode.opcodes p.bytecode.voices 0
  unfold Program.code
  rw [show codeAfter p.bytecode.opcodes 0 = p.bytecode.opcodes from rfl] at codes
  rw [codes, List.getElem?_map, blocks, hi]
  rfl

theorem code_beyond (h : Compiled patch bpm p.bytecode assembled) {voice : Nat}
    (beyond : patch.numVoices ≤ voice) : p.code voice = [] := by
  unfold Program.code
  rw [List.getElem?_eq_none]
  · rfl
  · rw [p.codesFrom_length, h.voices]
    exact beyond

/-- The opcodes tell the number of instruments. -/
theorem instrument_count (h : Compiled patch bpm p.bytecode assembled) (flags : patch.StereoFlags) :
    p.bytecode.opcodes.countP endsInstrument = patch.instruments.length := by
  rw [(h.streams flags).1, CodeBlock.stream_ends (h.blocks_framed flags), h.blocks_length flags]

end Compiled

/-! ## Two ways to divide a stream -/

namespace Patch

/-- Later positions have no earlier owners. -/
theorem ownerOf_mono {sizes : List Nat} {v w i j : Nat} (hi : ownerOf sizes v = some i)
    (hj : ownerOf sizes w = some j) (le : v ≤ w) : i ≤ j := by
  induction sizes generalizing v w i j with
  | nil => cases hi
  | cons size sizes ih =>
    rw [ownerOf] at hi hj
    by_cases here : v < size
    · rw [if_pos here] at hi
      cases hi
      exact Nat.zero_le j
    · rw [if_neg here] at hi
      rw [if_neg (by omega)] at hj
      obtain ⟨i', hi', rfl⟩ := Option.map_eq_some_iff.mp hi
      obtain ⟨j', hj', rfl⟩ := Option.map_eq_some_iff.mp hj
      exact Nat.succ_le_succ (ih hi' hj' (by omega))

/-- The last position is in the last element. -/
theorem ownerOf_last {sizes : List Nat} (hne : sizes ≠ []) (pos : ∀ n ∈ sizes, 1 ≤ n) :
    ownerOf sizes (total sizes - 1) = some (sizes.length - 1) := by
  induction sizes with
  | nil => exact absurd rfl hne
  | cons size sizes ih =>
    have here := pos size List.mem_cons_self
    rw [total_cons, ownerOf]
    cases sizes with
    | nil =>
      rw [total_nil, if_pos (by omega)]
      rfl
    | cons next sizes =>
      have some_more := pos next (by simp)
      have rest := ih (List.cons_ne_nil _ _) fun n hn => pos n (List.mem_cons_of_mem _ hn)
      rw [total_cons] at rest ⊢
      rw [if_neg (by omega), show size + (next + total sizes) - 1 - size =
        next + total sizes - 1 by omega, rest]
      rfl

section Divisions

variable {α : Type} {sizes sizes' : List Nat} (label : Nat → α) (pos : ∀ n ∈ sizes, 1 ≤ n)
  (pos' : ∀ n ∈ sizes', 1 ≤ n) (few : total sizes ≤ total sizes')
  (same : ∀ v < total sizes, ∀ i j, ownerOf sizes v = some i → ownerOf sizes' v = some j →
    label i = label j)
include pos pos' few same

/-- If the owners of all positions in two divisions have the same labels, so has everything between
two owners of one position. -/
theorem ownerOf_between {v i j : Nat} (hi : ownerOf sizes v = some i)
    (hj : ownerOf sizes' v = some j) :
    ∀ k, min i j ≤ k → k ≤ max i j → label k = label i := by
  induction v generalizing i j with
  | zero =>
    have first : i = 0 := by
      have hne : sizes ≠ [] := by
        rintro rfl
        cases hi
      exact Option.some.inj (hi.symm.trans (ownerOf_zero hne pos))
    have first' : j = 0 := by
      have hne : sizes' ≠ [] := by
        rintro rfl
        cases hj
      exact Option.some.inj (hj.symm.trans (ownerOf_zero hne pos'))
    intro k least most
    rw [show k = i by omega]
  | succ v ih =>
    have inside : v + 1 < total sizes := (ownerOf_isSome_iff sizes (v + 1)).mp (by rw [hi]; rfl)
    obtain ⟨i₀, hi₀⟩ := Option.isSome_iff_exists.mp
      ((ownerOf_isSome_iff sizes v).mpr (by omega))
    obtain ⟨j₀, hj₀⟩ := Option.isSome_iff_exists.mp
      ((ownerOf_isSome_iff sizes' v).mpr (by omega))
    have here := same (v + 1) inside i j hi hj
    have before := ih hi₀ hj₀
    have step : i = i₀ ∨ i = i₀ + 1 := by
      rcases ownerOf_succ pos hi₀ inside with next | next
      · exact .inl (Option.some.inj (hi.symm.trans next))
      · exact .inr (Option.some.inj (hi.symm.trans next))
    have step' : j = j₀ ∨ j = j₀ + 1 := by
      rcases ownerOf_succ pos' hj₀ (by omega) with next | next
      · exact .inl (Option.some.inj (hj.symm.trans next))
      · exact .inr (Option.some.inj (hj.symm.trans next))
    intro k least most
    by_cases first : k = i
    · rw [first]
    · by_cases second : k = j
      · rw [second, here]
      · -- Between owners that are apart, the one behind was passed by the other one before.
        rw [before k (by omega) (by omega)]
        by_cases behind : i < j
        · rw [before i (by omega) (by omega)]
        · rw [here, before j (by omega) (by omega)]

/-- Then positions that only the longer division has belong to owners with the label of the last
one. -/
theorem ownerOf_beyond (count : sizes.length = sizes'.length) (hne : sizes ≠ []) {v j : Nat}
    (beyond : total sizes ≤ v) (hj : ownerOf sizes' v = some j) :
    label j = label (sizes.length - 1) := by
  have last := ownerOf_last hne pos
  have some_position : 0 < total sizes := by
    have := (ownerOf_isSome_iff sizes (total sizes - 1)).mp (by rw [last]; rfl)
    omega
  obtain ⟨j₀, hj₀⟩ := Option.isSome_iff_exists.mp
    ((ownerOf_isSome_iff sizes' (total sizes - 1)).mpr (by omega))
  have later := ownerOf_mono hj₀ hj (by omega)
  have inside := ownerOf_lt hj
  exact ownerOf_between label pos pos' few same last hj₀ j (by omega) (by omega)

end Divisions

end Patch

/-! ## Voices that come and go -/

/-- What a voice plays; and if there is no such voice, what it would play if the last instrument had
more voices. -/
def Program.home (p : Program) (voice : Nat) : List UInt8 :=
  p.code (min voice (p.bytecode.voices - 1))

namespace Compiled

variable {patch patch' : Patch} {bpm bpm' : Nat} {p p' : Program}
  {assembled assembled' : List (List AssembledUnit)}

theorem home_of_lt (voice : Nat) (inside : voice < p.bytecode.voices) :
    p.home voice = p.code voice := by
  unfold Program.home
  rw [Nat.min_eq_left (by omega)]

theorem home_of_none (h : Compiled patch bpm p.bytecode assembled)
    (none : p.bytecode.voices = 0) (voice : Nat) : p.home voice = [] := by
  unfold Program.home
  exact h.code_beyond (by rw [← h.voices]; omega)

/-- A patch has voices just if it has instruments. -/
theorem voices_pos_iff (h : Compiled patch bpm p.bytecode assembled) :
    0 < p.bytecode.voices ↔ 0 < patch.instruments.length := by
  constructor
  · intro some_voice
    obtain ⟨i, hi⟩ := Option.isSome_iff_exists.mp
      ((patch.instrumentForVoice_isSome_iff 0).mpr (by rw [← h.voices]; exact some_voice))
    have inside := Patch.ownerOf_lt hi
    rw [List.length_map] at inside
    omega
  · intro some_instrument
    have hne : patch.instruments.map (·.numVoices) ≠ [] := by
      rw [← List.length_pos_iff, List.length_map]
      exact some_instrument
    have inside := Patch.voice_lt (Patch.ownerOf_last hne h.voices_pos)
    rw [h.voices]
    omega

/-- Voices that are not there are at home with the last instrument. -/
theorem home_last (h : Compiled patch bpm p.bytecode assembled) (some_voice : 0 < p.bytecode.voices)
    {voice : Nat} (beyond : p.bytecode.voices ≤ voice) :
    p.home voice = instrumentCode p.bytecode.opcodes (patch.instruments.length - 1) := by
  have hne : patch.instruments.map (·.numVoices) ≠ [] := by
    rw [← List.length_pos_iff, List.length_map]
    exact h.voices_pos_iff.mp some_voice
  have last := Patch.ownerOf_last hne h.voices_pos
  rw [List.length_map] at last
  unfold Program.home
  rw [Nat.min_eq_right (show p.bytecode.voices - 1 ≤ voice by omega), h.voices]
  exact h.code_eq last

/-- A patch with as many voices or more, as many instruments and the same opcodes, with which the
voices of the other one play the same, has only voices at home. -/
theorem home_grows (h : Compiled patch bpm p.bytecode assembled)
    (h' : Compiled patch' bpm' p'.bytecode assembled')
    (count : patch.instruments.length = patch'.instruments.length)
    (stream : p'.bytecode.opcodes = p.bytecode.opcodes)
    (few : p.bytecode.voices ≤ p'.bytecode.voices)
    (same : ∀ v < p.bytecode.voices, p'.code v = p.code v) (voice : Nat) :
    p'.home voice = p.home voice := by
  by_cases inside : voice < p.bytecode.voices
  · rw [home_of_lt voice inside, home_of_lt voice (by omega)]
    exact same voice inside
  · rcases Nat.eq_zero_or_pos p.bytecode.voices with none | some_voice
    · have none' : p'.bytecode.voices = 0 := by
        by_contra some_voice'
        have some_instrument := h'.voices_pos_iff.mp (by omega)
        rw [← count, ← h.voices_pos_iff] at some_instrument
        omega
      rw [h.home_of_none none, h'.home_of_none none']
    · rw [h.home_last some_voice (by omega)]
      by_cases there : voice < p'.bytecode.voices
      · obtain ⟨j, hj⟩ := Option.isSome_iff_exists.mp
          ((patch'.instrumentForVoice_isSome_iff voice).mpr (by rw [← h'.voices]; exact there))
        have labels : ∀ v < total (patch.instruments.map (·.numVoices)), ∀ i j,
            Patch.ownerOf (patch.instruments.map (·.numVoices)) v = some i →
            Patch.ownerOf (patch'.instruments.map (·.numVoices)) v = some j →
              instrumentCode p.bytecode.opcodes i = instrumentCode p.bytecode.opcodes j := by
          intro v hv i j hi hj
          have equal := same v (by rw [h.voices]; exact hv)
          rw [h.code_eq hi, h'.code_eq hj, stream] at equal
          exact equal.symm
        have hne : patch.instruments.map (·.numVoices) ≠ [] := by
          rw [← List.length_pos_iff, List.length_map]
          exact h.voices_pos_iff.mp some_voice
        rw [h.voices] at few inside
        rw [h'.voices] at few
        rw [home_of_lt voice there, h'.code_eq hj, stream]
        rw [Patch.ownerOf_beyond (instrumentCode p.bytecode.opcodes) h.voices_pos h'.voices_pos few
          labels (by rw [List.length_map, List.length_map, count]) hne (Nat.le_of_not_lt inside) hj,
          List.length_map]
      · rw [h'.home_last (by omega) (by omega), stream, count]

/-- If two patches have the same opcodes and the voices that both have play the same, then all
voices have the same home. -/
theorem home_same (h : Compiled patch bpm p.bytecode assembled)
    (h' : Compiled patch' bpm' p'.bytecode assembled') (flags : patch.StereoFlags)
    (flags' : patch'.StereoFlags) (stream : p'.bytecode.opcodes = p.bytecode.opcodes)
    (same : ∀ v < p.bytecode.voices, v < p'.bytecode.voices → p'.code v = p.code v) (voice : Nat) :
    p'.home voice = p.home voice := by
  have count : patch.instruments.length = patch'.instruments.length := by
    rw [← h.instrument_count flags, ← h'.instrument_count flags', stream]
  rcases Nat.le_total p.bytecode.voices p'.bytecode.voices with few | many
  · apply h.home_grows h' count stream few
    intro v hv
    exact same v hv (by omega)
  · symm
    apply h'.home_grows h count.symm stream.symm many
    intro v hv
    exact (same v (by omega) hv).symm

end Compiled

end ModularSynth
