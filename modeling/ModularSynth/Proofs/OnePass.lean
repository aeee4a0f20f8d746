-- What a writer makes of the emissions of a patch. Every address comes to stand where it was
-- written, counted from the last label of its symbol before it or else from the first one after
-- it. Until that label comes, an address is the only thing that may still change.
import Mathlib.Data.List.Pairwise
import Mathlib.Data.List.Perm.Basic
import ModularSynth.Bytecode.Writer
import ModularSynth.Proofs.Linked
import ModularSynth.Proofs.SendAddresses

namespace ModularSynth

open Assembly

namespace Writer

/-! ## Adding to addresses -/

theorem addAt_of_getElem {bytes : List UInt8} {place : Nat} {low high : UInt8} (more : UInt16)
    (hl : bytes[place]? = some low) (hh : bytes[place + 1]? = some high) :
    addAt bytes place more =
      (bytes.set place ((low.toUInt16 ||| high.toUInt16 <<< 8) + more).toUInt8).set (place + 1)
        (((low.toUInt16 ||| high.toUInt16 <<< 8) + more) >>> 8).toUInt8 := by
  simp only [addAt, hl, hh]

theorem addAt_outside {bytes : List UInt8} {place : Nat} (more : UInt16)
    (outside : bytes.length ≤ place + 1) : addAt bytes place more = bytes := by
  unfold addAt
  rw [List.getElem?_eq_none outside]
  cases bytes[place]? <;> rfl

@[simp]
theorem addAt_length (bytes : List UInt8) (place : Nat) (more : UInt16) :
    (addAt bytes place more).length = bytes.length := by
  unfold addAt
  split <;> simp

/-- No other byte is changed. -/
theorem addAt_getElem? (bytes : List UInt8) {place i : Nat} (more : UInt16) (below : i ≠ place)
    (above : i ≠ place + 1) : (addAt bytes place more)[i]? = bytes[i]? := by
  unfold addAt
  split
  · rw [List.getElem?_set_ne (Ne.symm above), List.getElem?_set_ne (Ne.symm below)]
  · rfl

theorem addAt_append {xs : List UInt8} {place : Nat} (inside : place + 2 ≤ xs.length)
    (ys : List UInt8) (more : UInt16) : addAt (xs ++ ys) place more = addAt xs place more ++ ys := by
  have hl : xs[place]? = some xs[place] := List.getElem?_eq_getElem (by omega)
  have hh : xs[place + 1]? = some xs[place + 1] := List.getElem?_eq_getElem (by omega)
  rw [addAt_of_getElem more hl hh,
    addAt_of_getElem more ((List.getElem?_append_left (by omega)).trans hl)
      ((List.getElem?_append_left (by omega)).trans hh),
    List.set_append_left _ _ (by omega), List.set_append_left _ _ (by simp; omega)]

/-- An address at the end of some bytes is read, added to and written back. -/
theorem addAt_address (xs : List UInt8) (address more : UInt16) :
    addAt (xs ++ addressBytes address) xs.length more = xs ++ addressBytes (address + more) := by
  have hl : (xs ++ addressBytes address)[xs.length]? = some address.toUInt8 := by
    simp [addressBytes]
  have hh : (xs ++ addressBytes address)[xs.length + 1]? = some (address >>> 8).toUInt8 := by
    simp [addressBytes]
  rw [addAt_of_getElem more hl hh, SendAddress.of_bytes, List.set_append_right _ _ (Nat.le_refl _),
    Nat.sub_self, List.set_append_right _ _ (Nat.le_succ _), Nat.succ_sub (Nat.le_refl _),
    Nat.sub_self]
  rfl

/-- Two places lie so far apart that the addresses there have no byte in common. -/
def Apart (p q : Nat) : Prop :=
  p + 2 ≤ q ∨ q + 2 ≤ p

theorem addAt_comm (bytes : List UInt8) {p q : Nat} (h : Apart p q) (a b : UInt16) :
    addAt (addAt bytes p a) q b = addAt (addAt bytes q b) p a := by
  unfold Apart at h
  by_cases hp : bytes.length ≤ p + 1
  · rw [addAt_outside a hp, addAt_outside a (by simpa using hp)]
  by_cases hq : bytes.length ≤ q + 1
  · rw [addAt_outside b hq, addAt_outside b (by simpa using hq)]
  have at_p : bytes[p]? = some bytes[p] := List.getElem?_eq_getElem (by omega)
  have above_p : bytes[p + 1]? = some bytes[p + 1] := List.getElem?_eq_getElem (by omega)
  have at_q : bytes[q]? = some bytes[q] := List.getElem?_eq_getElem (by omega)
  have above_q : bytes[q + 1]? = some bytes[q + 1] := List.getElem?_eq_getElem (by omega)
  -- neither of the two reads what the other has written
  rw [addAt_of_getElem b ((addAt_getElem? bytes a (by omega) (by omega)).trans at_q)
      ((addAt_getElem? bytes a (by omega) (by omega)).trans above_q),
    addAt_of_getElem a ((addAt_getElem? bytes b (by omega) (by omega)).trans at_p)
      ((addAt_getElem? bytes b (by omega) (by omega)).trans above_p),
    addAt_of_getElem a at_p above_p, addAt_of_getElem b at_q above_q]
  apply List.ext_getElem?
  intro i
  simp only [List.getElem?_set]
  grind

/-- Add to several addresses. -/
def addAll (bytes : List UInt8) (changes : List (Nat × UInt16)) : List UInt8 :=
  changes.foldl (fun bytes x => addAt bytes x.1 x.2) bytes

@[simp]
theorem addAll_length (bytes : List UInt8) (changes : List (Nat × UInt16)) :
    (addAll bytes changes).length = bytes.length := by
  unfold addAll
  induction changes generalizing bytes with
  | nil => rfl
  | cons x rest ih => rw [List.foldl_cons, ih, addAt_length]

theorem addAll_getElem? (bytes : List UInt8) {changes : List (Nat × UInt16)} {i : Nat}
    (h : ∀ x ∈ changes, i ≠ x.1 ∧ i ≠ x.1 + 1) : (addAll bytes changes)[i]? = bytes[i]? := by
  unfold addAll
  induction changes generalizing bytes with
  | nil => rfl
  | cons x rest ih =>
    have here := h x List.mem_cons_self
    rw [List.foldl_cons, ih _ fun y hy => h y (List.mem_cons_of_mem _ hy),
      addAt_getElem? bytes x.2 here.1 here.2]

theorem addAll_append {xs : List UInt8} {changes : List (Nat × UInt16)}
    (inside : ∀ x ∈ changes, x.1 + 2 ≤ xs.length) (ys : List UInt8) :
    addAll (xs ++ ys) changes = addAll xs changes ++ ys := by
  unfold addAll
  induction changes generalizing xs with
  | nil => rfl
  | cons x rest ih =>
    rw [List.foldl_cons, List.foldl_cons, addAt_append (inside x List.mem_cons_self),
      ih fun y hy => by simpa using inside y (List.mem_cons_of_mem _ hy)]

theorem addAll_both (bytes : List UInt8) (changes more : List (Nat × UInt16)) :
    addAll bytes (changes ++ more) = addAll (addAll bytes changes) more :=
  List.foldl_append

/-- Where the places lie apart, their order is all the same. -/
theorem addAll_perm (bytes : List UInt8) {changes others : List (Nat × UInt16)}
    (same : changes.Perm others) (apart : changes.Pairwise fun x y => Apart x.1 y.1) :
    addAll bytes changes = addAll bytes others := by
  have symm : Std.Symm fun x y : Nat × UInt16 => Apart x.1 y.1 := ⟨fun _ _ h => h.symm⟩
  refine same.foldl_eq' (fun x hx y hy z => ?_) bytes
  by_cases h : x = y
  · rw [h]
  · exact addAt_comm z (apart.forall hx hy h) _ _

/-! ## What is still to come -/

end Writer

/-- The addresses that symbols have after a label. -/
def Symbol.labelled (l : UnitLabel) (address? : Symbol → Option UInt16) : Symbol → Option UInt16
  | .inVoice id => if id = l.id then some l.localAddress else address? (.inVoice id)
  | .anywhere id => if id = l.id then some l.globalAddress else address? (.anywhere id)

theorem Symbol.labelled_other (l : UnitLabel) (address? : Symbol → Option UInt16) {symbol : Symbol}
    (inner : symbol ≠ .inVoice l.id) (outer : symbol ≠ .anywhere l.id) :
    labelled l address? symbol = address? symbol := by
  cases symbol with
  | inVoice id => exact if_neg fun h => inner (by rw [h])
  | anywhere id => exact if_neg fun h => outer (by rw [h])

/-- The addresses that symbols have outside an instrument. -/
def Symbol.outside (address? : Symbol → Option UInt16) (symbol : Symbol) : Option UInt16 :=
  if symbol.isInner then none else address? symbol

namespace Emission

/-- The address that a symbol gets first. -/
def next : List Emission → Symbol → Option UInt16
  | [] => fun _ => none
  | .label l :: rest => Symbol.labelled l (next rest)
  | .finish :: rest => Symbol.outside (next rest)
  | _ :: rest => next rest

/-- The bytes of emissions, where some symbols are known, if every other one that is referred to
gets an address later. -/
def linked? (known : List (Symbol × UInt16)) : List Emission → Option (List UInt8)
  | [] => some []
  | .operand byte :: rest => (linked? known rest).map (byte :: ·)
  | .address symbol offset :: rest => do
    let address ← known.lookup symbol <|> next rest symbol
    let bytes ← linked? known rest
    return addressBytes (offset + address) ++ bytes
  | .label l :: rest =>
    linked? ((.anywhere l.id, l.globalAddress) :: (.inVoice l.id, l.localAddress) :: known) rest
  | .finish :: rest => linked? (known.filter (!·.1.isInner)) rest

end Emission

namespace Writer

/-- What is to be added where, when the addresses of the symbols that are waited for come. -/
def changes (waiting : List (Symbol × Nat)) (address? : Symbol → Option UInt16) :
    List (Nat × UInt16) :=
  waiting.filterMap fun x => (address? x.1).map (x.2, ·)

/-- The bytes so far, once the symbols have got their addresses. -/
def filled (w : Writer) (address? : Symbol → Option UInt16) : List UInt8 :=
  addAll w.bytes (changes w.waiting address?)

/-- The addresses that wait stand among the bytes so far, one after the other. -/
structure Sound (w : Writer) : Prop where
  inside : ∀ x ∈ w.waiting, x.2 + 2 ≤ w.bytes.length
  apart : w.waiting.Pairwise fun x y => Apart x.2 y.2

theorem Sound.of_nothing : Sound {} :=
  ⟨fun _ h => (List.not_mem_nil h).elim, .nil⟩

section Step

variable {w : Writer} {address? : Symbol → Option UInt16}

theorem changes_append (waiting more : List (Symbol × Nat)) (address? : Symbol → Option UInt16) :
    changes (waiting ++ more) address? = changes waiting address? ++ changes more address? :=
  List.filterMap_append

theorem mem_changes {waiting : List (Symbol × Nat)} {x : Nat × UInt16}
    (h : x ∈ changes waiting address?) : ∃ symbol, (symbol, x.1) ∈ waiting := by
  obtain ⟨⟨symbol, place⟩, hx, given⟩ := List.mem_filterMap.mp h
  obtain ⟨a, -, rfl⟩ := Option.map_eq_some_iff.mp given
  exact ⟨symbol, hx⟩

theorem Sound.changes_apart (h : w.Sound) :
    (changes w.waiting address?).Pairwise fun x y => Apart x.1 y.1 := by
  refine List.pairwise_filterMap.mpr (h.apart.imp fun {x y} apart a ha b hb => ?_)
  obtain ⟨_, -, rfl⟩ := Option.map_eq_some_iff.mp ha
  obtain ⟨_, -, rfl⟩ := Option.map_eq_some_iff.mp hb
  exact apart

@[simp]
theorem filled_length (w : Writer) (address? : Symbol → Option UInt16) :
    (w.filled address?).length = w.bytes.length :=
  addAll_length _ _

/-! ## Steps -/

theorem Sound.write (h : w.Sound) (bytes : List UInt8) :
    Sound { w with bytes := w.bytes ++ bytes } := by
  refine ⟨fun x hx => ?_, h.apart⟩
  have := h.inside x hx
  rw [List.length_append]
  omega

theorem Sound.filled_write (h : w.Sound) (bytes : List UInt8) :
    filled { w with bytes := w.bytes ++ bytes } address? = w.filled address? ++ bytes := by
  refine addAll_append (fun x hx => ?_) bytes
  obtain ⟨symbol, waits⟩ := mem_changes hx
  exact h.inside _ waits

theorem Sound.refer (h : w.Sound) (symbol : Symbol) (offset : UInt16) :
    (w.refer symbol offset).Sound := by
  unfold Writer.refer
  split
  · exact h.write _
  · refine ⟨fun x hx => ?_, ?_⟩
    · rw [List.length_append, show (addressBytes offset).length = 2 from rfl]
      rcases List.mem_append.mp hx with old | new
      · have := h.inside x old
        omega
      · rw [List.mem_singleton.mp new]
    · refine List.pairwise_append.mpr ⟨h.apart, List.pairwise_singleton _ _, fun x hx y hy => ?_⟩
      rw [List.mem_singleton.mp hy]
      exact .inl (h.inside x hx)

/-- An address is complete once its symbol has one, which may have been before. -/
theorem Sound.filled_refer (h : w.Sound) {symbol : Symbol} (offset : UInt16) {address : UInt16}
    (found : (w.known.lookup symbol <|> address? symbol) = some address) :
    (w.refer symbol offset).filled address? =
      w.filled address? ++ addressBytes (offset + address) := by
  cases known : w.known.lookup symbol with
  | some seen =>
    rw [known] at found
    cases found
    simp only [Writer.refer, known]
    exact h.filled_write _
  | none =>
    have given : address? symbol = some address := by simpa [known] using found
    have last : changes [(symbol, w.bytes.length)] address? = [(w.bytes.length, address)] := by
      simp [changes, given]
    have rest : addAll (w.bytes ++ addressBytes offset) (changes w.waiting address?) =
        w.filled address? ++ addressBytes offset := h.filled_write _
    have there := addAt_address (w.filled address?) offset address
    rw [filled_length] at there
    simp only [Writer.refer, known, filled]
    rw [changes_append, last, addAll_both, rest]
    exact there

theorem define_bytes (w : Writer) (symbol : Symbol) (address : UInt16) :
    (w.define symbol address).bytes =
      addAll w.bytes ((w.waiting.filter (·.1 == symbol)).map fun x => (x.2, address)) := by
  rw [addAll, List.foldl_map]
  rfl

theorem Sound.define (h : w.Sound) (symbol : Symbol) (address : UInt16) :
    (w.define symbol address).Sound := by
  refine ⟨fun x hx => ?_, h.apart.filter _⟩
  rw [define_bytes, addAll_length]
  exact h.inside x (List.mem_of_mem_filter hx)

/-- Where a symbol has been waited for, its address is added. -/
theorem Sound.filled_define (h : w.Sound) (symbol : Symbol) (address : UInt16) :
    (w.define symbol address).filled address? =
      w.filled fun s => if s = symbol then some address else address? s := by
  let later : Symbol → Option UInt16 := fun s => if s = symbol then some address else address? s
  have now : changes (w.waiting.filter (·.1 == symbol)) later =
      (w.waiting.filter (·.1 == symbol)).map fun x => (x.2, address) := by
    rw [changes, ← List.filterMap_eq_map]
    refine List.filterMap_congr fun x hx => ?_
    have same : x.1 = symbol := eq_of_beq (List.mem_filter.mp hx).2
    simp [later, same]
  have others : changes (w.waiting.filter (!·.1 == symbol)) later =
      changes (w.define symbol address).waiting address? := by
    refine List.filterMap_congr fun x hx => ?_
    have other : x.1 ≠ symbol := by simpa using (List.mem_filter.mp hx).2
    simp [later, other]
  have same : (changes w.waiting later).Perm
      (((w.waiting.filter (·.1 == symbol)).map fun x => (x.2, address)) ++
        changes (w.define symbol address).waiting address?) := by
    rw [← now, ← others, ← changes_append]
    exact (List.filter_append_perm _ _).symm.filterMap _
  rw [filled, filled, addAll_perm _ same h.changes_apart, addAll_both, define_bytes]

/-- What waits for a symbol within an instrument is given up at its end. -/
theorem filled_finish (w : Writer) (address? : Symbol → Option UInt16) :
    (w.step .finish).filled address? = w.filled (Symbol.outside address?) := by
  unfold filled step changes
  dsimp only
  rw [List.filterMap_filter]
  congr 1
  refine List.filterMap_congr fun x _ => ?_
  unfold Symbol.outside
  cases x.1.isInner <;> rfl

theorem Sound.step (h : w.Sound) (e : Emission) : (w.step e).Sound := by
  cases e with
  | operand byte => exact h.write [byte]
  | address symbol offset => exact h.refer symbol offset
  | label l => exact (h.define _ _).define _ _
  | finish => exact ⟨fun x hx => h.inside x (List.mem_of_mem_filter hx), h.apart.filter _⟩

/-! ## Runs -/

/-- What the bytes will be when the rest has been written, if every symbol gets an address. -/
def outcome? (w : Writer) (todo : List Emission) : Option (List UInt8) :=
  (Emission.linked? w.known todo).map (w.filled (Emission.next todo) ++ ·)

theorem refer_known (w : Writer) (symbol : Symbol) (offset : UInt16) :
    (w.refer symbol offset).known = w.known := by
  unfold Writer.refer
  split <;> rfl

theorem Sound.outcome?_step (h : w.Sound) {e : Emission} {todo : List Emission}
    {bytes : List UInt8} (outcome : w.outcome? (e :: todo) = some bytes) :
    (w.step e).outcome? todo = some bytes := by
  obtain ⟨linked, given, rfl⟩ := Option.map_eq_some_iff.mp outcome
  cases e with
  | operand byte =>
    obtain ⟨rest, later, rfl⟩ := Option.map_eq_some_iff.mp given
    refine Option.map_eq_some_iff.mpr ⟨rest, later, ?_⟩
    rw [Writer.step, h.filled_write, List.append_assoc]
    rfl
  | address symbol offset =>
    obtain ⟨address, found, given⟩ := Option.bind_eq_some_iff.mp given
    obtain ⟨rest, later, given⟩ := Option.bind_eq_some_iff.mp given
    cases given
    refine Option.map_eq_some_iff.mpr ⟨rest, ?_, ?_⟩
    · rw [Writer.step, refer_known, later]
    · rw [Writer.step, h.filled_refer offset found, List.append_assoc]
      rfl
  | label l =>
    refine Option.map_eq_some_iff.mpr ⟨linked, given, ?_⟩
    rw [Writer.step, (h.define _ _).filled_define, h.filled_define]
    congr 2
    funext symbol
    cases symbol <;> simp [Emission.next, Symbol.labelled]
  | finish =>
    refine Option.map_eq_some_iff.mpr ⟨linked, given, ?_⟩
    rw [filled_finish]
    rfl

/-- In every state on the way, it is settled what the bytes will be. -/
theorem Sound.outcome?_run (h : w.Sound) {done todo : List Emission} {bytes : List UInt8}
    (outcome : w.outcome? (done ++ todo) = some bytes) :
    (w.run done).outcome? todo = some bytes := by
  induction done generalizing w with
  | nil => exact outcome
  | cons e rest ih => exact ih (h.step e) (h.outcome?_step outcome)

theorem filled_none (w : Writer) : w.filled (fun _ => none) = w.bytes := by
  simp [filled, changes, addAll]

/-- A run that ends leaves what has been settled. -/
theorem outcome?_nil (w : Writer) : w.outcome? [] = some w.bytes := by
  simp [outcome?, Emission.linked?, Emission.next, filled_none]

/-! ## What waits -/

/-- Every symbol that is waited for will get an address in time. -/
def Owed (w : Writer) (todo : List Emission) : Prop :=
  ∀ x ∈ w.waiting, (Emission.next todo x.1).isSome = true

theorem Owed.step {e : Emission} {todo : List Emission} (h : w.Owed (e :: todo))
    (linked : (Emission.linked? w.known (e :: todo)).isSome = true) : (w.step e).Owed todo := by
  cases e with
  | operand byte => exact h
  | address symbol offset =>
    obtain ⟨bytes, given⟩ := Option.isSome_iff_exists.mp linked
    obtain ⟨address, found, -⟩ := Option.bind_eq_some_iff.mp given
    intro x hx
    rw [Writer.step, Writer.refer] at hx
    cases known : w.known.lookup symbol with
    | some seen =>
      simp only [known] at hx
      exact h x hx
    | none =>
      simp only [known] at hx
      rcases List.mem_append.mp hx with old | new
      · exact h x old
      · rw [List.mem_singleton.mp new]
        have given : Emission.next todo symbol = some address := by simpa [known] using found
        simp [given]
  | label l =>
    intro x hx
    obtain ⟨hx, notOuter⟩ := List.mem_filter.mp hx
    obtain ⟨hx, notInner⟩ := List.mem_filter.mp hx
    have still := h x hx
    rw [Emission.next, Symbol.labelled_other l _ (by simpa using notInner) (by simpa using notOuter)]
      at still
    exact still
  | finish =>
    intro x hx
    obtain ⟨hx, outer⟩ := List.mem_filter.mp hx
    have still := h x hx
    simp only [Bool.not_eq_true'] at outer
    simpa [Emission.next, Symbol.outside, outer] using still

theorem Owed.run {done todo : List Emission} {bytes : List UInt8} (sound : w.Sound)
    (h : w.Owed (done ++ todo)) (outcome : w.outcome? (done ++ todo) = some bytes) :
    (w.run done).Owed todo := by
  induction done generalizing w with
  | nil => exact h
  | cons e rest ih =>
    obtain ⟨linked, given, -⟩ := Option.map_eq_some_iff.mp outcome
    exact ih (sound.step e) (h.step (Option.isSome_iff_exists.mpr ⟨linked, given⟩))
      (sound.outcome?_step outcome)

/-- Nothing waits at the end. -/
theorem Owed.none_left (h : w.Owed []) : w.waiting = [] := by
  refine List.eq_nil_iff_forall_not_mem.mpr fun x hx => ?_
  have := h x hx
  cases this

/-- Nothing within an instrument waits at its end. -/
theorem Owed.none_inner {todo : List Emission} (h : w.Owed (.finish :: todo)) :
    ∀ x ∈ w.waiting, x.1.isInner = false := by
  intro x hx
  have owed := h x hx
  rw [Emission.next, Symbol.outside] at owed
  split at owed
  · cases owed
  · rename_i outer
    simpa using outer

/-! ## What may change -/

theorem length_step (w : Writer) (e : Emission) :
    (w.step e).bytes.length = w.bytes.length + match e with
      | .operand _ => 1
      | .address .. => 2
      | _ => 0 := by
  cases e with
  | operand byte => simp [Writer.step]
  | address symbol offset =>
    rw [Writer.step, Writer.refer]
    split <;> simp [addressBytes]
  | label l => simp [Writer.step, define_bytes]
  | finish => rfl

/-- What waits is an address of a symbol. -/
theorem waits_at_address {es : List Emission} {x : Symbol × Nat} (hx : x ∈ (w.run es).waiting) :
    x ∈ w.waiting ∨ x.2 ∈ Emission.addressPlaces w.bytes.length es ∧
      x.2 + 1 ∈ Emission.addressPlaces w.bytes.length es := by
  induction es generalizing w with
  | nil => exact .inl hx
  | cons e rest ih =>
    have later := ih hx
    rw [length_step] at later
    cases e with
    | operand byte => exact later
    | address symbol offset =>
      rcases later with now | ⟨low, high⟩
      · rw [Writer.step, Writer.refer] at now
        cases known : w.known.lookup symbol with
        | some seen =>
          simp only [known] at now
          exact .inl now
        | none =>
          simp only [known] at now
          rcases List.mem_append.mp now with old | new
          · exact .inl old
          · rw [List.mem_singleton.mp new]
            exact .inr ⟨List.mem_cons_self, List.mem_cons_of_mem _ List.mem_cons_self⟩
      · exact .inr ⟨List.mem_cons_of_mem _ (List.mem_cons_of_mem _ low),
          List.mem_cons_of_mem _ (List.mem_cons_of_mem _ high)⟩
    | label l =>
      refine later.imp (fun now => ?_) id
      exact List.mem_of_mem_filter (List.mem_of_mem_filter now)
    | finish => exact later.imp (fun now => List.mem_of_mem_filter now) id

/-- A byte that has been written stays as it is, unless it belongs to the address of a symbol. -/
theorem outcome_getElem? {es todo : List Emission} {bytes : List UInt8}
    (outcome : Writer.outcome? {} (es ++ todo) = some bytes) {i : Nat}
    (written : i < (Writer.run {} es).bytes.length) (other : i ∉ Emission.addressPlaces 0 es) :
    bytes[i]? = (Writer.run {} es).bytes[i]? := by
  obtain ⟨rest, -, rfl⟩ := Option.map_eq_some_iff.mp (Sound.of_nothing.outcome?_run outcome)
  rw [List.getElem?_append_left (by simpa using written)]
  refine addAll_getElem? _ fun x hx => ?_
  obtain ⟨symbol, waits⟩ := mem_changes hx
  rcases waits_at_address waits with old | ⟨low, high⟩
  · cases old
  · exact ⟨fun h => other (h ▸ low), fun h => other (h ▸ high)⟩

end Step

end Writer

end ModularSynth
