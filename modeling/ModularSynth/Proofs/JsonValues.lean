-- The compact text of a JSON value, as bytes, and what it is read back as: the value itself, if it
-- holds no number with a fraction and no string or name without content.
import ModularSynth.Proofs.JsonNumbers

namespace ModularSynth.Json

namespace Value

/-! ## Values as bytes -/

mutual

/-- The bytes of a value's compact text. -/
def bytes : Value → List UInt8
  | .null => [0x6e, 0x75, 0x6c, 0x6c]
  | .bool true => [0x74, 0x72, 0x75, 0x65]
  | .bool false => [0x66, 0x61, 0x6c, 0x73, 0x65]
  | .integer n => integerBytes n
  | .real => [0x30, 0x2e, 0x30]
  | .text content => quoteBytes (content.getD "")
  | .array items => 0x5b :: (itemBytes true items ++ [0x5d])
  | .object members => 0x7b :: (memberBytes true members ++ [0x7d])

/-- The bytes of items with commas between them. -/
def itemBytes (first : Bool) : List Value → List UInt8
  | [] => []
  | v :: rest => (if first then [] else [0x2c]) ++ (v.bytes ++ itemBytes false rest)

/-- The bytes of members with commas between them. -/
def memberBytes (first : Bool) : List (Option String × Value) → List UInt8
  | [] => []
  | (name, v) :: rest =>
    (if first then [] else [0x2c]) ++
      (quoteBytes (name.getD "") ++ 0x3a :: (v.bytes ++ memberBytes false rest))

end

theorem itemBytes_first (v : Value) (items : List Value) :
    itemBytes true (v :: items) = v.bytes ++ itemBytes false items := by
  rw [itemBytes]
  rfl

theorem itemBytes_later (v : Value) (items : List Value) :
    itemBytes false (v :: items) = 0x2c :: itemBytes true (v :: items) := by
  rw [itemBytes_first, itemBytes]
  rfl

theorem memberBytes_first (name : Option String) (v : Value)
    (members : List (Option String × Value)) :
    memberBytes true ((name, v) :: members) =
      quoteBytes (name.getD "") ++ 0x3a :: (v.bytes ++ memberBytes false members) := by
  rw [memberBytes]
  rfl

theorem memberBytes_later (m : Option String × Value) (members : List (Option String × Value)) :
    memberBytes false (m :: members) = 0x2c :: memberBytes true (m :: members) := by
  rw [memberBytes_first, memberBytes]
  rfl

mutual

theorem utf8_appendTo (out : String) :
    ∀ v : Value, (appendTo out v).toUTF8.toList = out.toUTF8.toList ++ v.bytes
  | .null => by
    have word : "null".toUTF8.toList = _ := utf8_ofList ['n', 'u', 'l', 'l']
    rw [appendTo, utf8_append, word]
    rfl
  | .bool true => by
    have word : "true".toUTF8.toList = _ := utf8_ofList ['t', 'r', 'u', 'e']
    rw [appendTo, utf8_append, word]
    rfl
  | .bool false => by
    have word : "false".toUTF8.toList = _ := utf8_ofList ['f', 'a', 'l', 's', 'e']
    rw [appendTo, utf8_append, word]
    rfl
  | .integer n => by
    rw [appendTo, utf8_append, utf8_toString, bytes]
  | .real => by
    have word : "0.0".toUTF8.toList = _ := utf8_ofList ['0', '.', '0']
    rw [appendTo, utf8_append, word]
    rfl
  | .text content => by
    rw [appendTo, utf8_append, utf8_quote, bytes]
  | .array items => by
    have opening : "[".toUTF8.toList = [0x5b] := (utf8_ofList ['[']).trans (by decide)
    have closing : "]".toUTF8.toList = [0x5d] := (utf8_ofList [']']).trans (by decide)
    rw [appendTo, utf8_append, utf8_appendItems, utf8_append, opening, closing, bytes]
    simp
  | .object members => by
    have opening : "\x7b".toUTF8.toList = [0x7b] := (utf8_ofList ['\x7b']).trans (by decide)
    have closing : "\x7d".toUTF8.toList = [0x7d] := (utf8_ofList ['\x7d']).trans (by decide)
    rw [appendTo, utf8_append, utf8_appendMembers, utf8_append, opening, closing, bytes]
    simp

theorem utf8_appendItems (out : String) (first : Bool) :
    ∀ items : List Value,
      (appendItems out first items).toUTF8.toList = out.toUTF8.toList ++ itemBytes first items
  | [] => by
    rw [appendItems, itemBytes, List.append_nil]
  | v :: rest => by
    have comma : ",".toUTF8.toList = [0x2c] := (utf8_ofList [',']).trans (by decide)
    rw [appendItems, utf8_appendItems _ false rest, utf8_appendTo, itemBytes]
    cases first with
    | true => simp
    | false =>
      simp only [Bool.false_eq_true, if_false]
      rw [utf8_append, comma, List.append_assoc, List.append_assoc]

theorem utf8_appendMembers (out : String) (first : Bool) :
    ∀ members : List (Option String × Value),
      (appendMembers out first members).toUTF8.toList =
        out.toUTF8.toList ++ memberBytes first members
  | [] => by
    rw [appendMembers, memberBytes, List.append_nil]
  | (name, v) :: rest => by
    have comma : ",".toUTF8.toList = [0x2c] := (utf8_ofList [',']).trans (by decide)
    have colon : ":".toUTF8.toList = [0x3a] := (utf8_ofList [':']).trans (by decide)
    rw [appendMembers, utf8_appendMembers _ false rest, utf8_appendTo, utf8_append, utf8_append,
      utf8_quote, colon, memberBytes]
    cases first with
    | true => simp
    | false =>
      simp only [Bool.false_eq_true, if_false]
      rw [utf8_append, comma]
      simp only [List.append_assoc, List.cons_append, List.nil_append]

end

theorem utf8_render (v : Value) : v.render.toUTF8.toList = v.bytes := by
  unfold render
  rw [utf8_appendTo]
  simp

/-! ## What texts say all of -/

/-- A value of which nothing is lost in its text. -/
inductive Spelled : Value → Prop
  | null : Spelled .null
  | bool (b : Bool) : Spelled (.bool b)
  | integer (n : Int) : Spelled (.integer n)
  | text (s : String) : Spelled (.text (some s))
  | array {items : List Value} (h : ∀ v ∈ items, Spelled v) : Spelled (.array items)
  | object {members : List (Option String × Value)} (named : ∀ m ∈ members, m.1.isSome)
      (h : ∀ m ∈ members, Spelled m.2) : Spelled (.object members)

/-- Does reading the bytes of the value give the value, whatever follows that does not go on with a
number? -/
def ReadsBack (v : Value) : Prop :=
  ∀ fuel rest, 2 * v.bytes.length ≤ fuel → EndsNumber rest →
    readValue fuel (v.bytes ++ rest) = some (v, rest)

end Value

open Value

theorem skipBlanks_cons {b : UInt8} (h : isBlank b = false) (rest : List UInt8) :
    skipBlanks (b :: rest) = b :: rest := by
  unfold skipBlanks
  rw [List.dropWhile_cons_of_neg (by simp [h])]

/-- The first byte of a number is a minus or a digit. -/
theorem integerBytes_eq_cons (n : Int) :
    ∃ b rest, integerBytes n = b :: rest ∧ (b = 0x2d ∨ isDigit b) := by
  unfold integerBytes
  split
  · exact ⟨0x2d, digitBytes n.natAbs, rfl, .inl rfl⟩
  · cases form : digitBytes n.natAbs with
    | nil => exact absurd form (digitBytes_ne_nil _)
    | cons d ds =>
      refine ⟨d, ds, rfl, .inr ?_⟩
      apply isDigit_digitBytes n.natAbs
      rw [form]
      exact List.mem_cons_self

/-- A byte that begins a number begins nothing else. -/
theorem number_start {b : UInt8} (h : b = 0x2d ∨ isDigit b) :
    isBlank b = false ∧ b ≠ 0x22 ∧ b ≠ 0x5b ∧ b ≠ 0x7b ∧ b ≠ 0x6e ∧ b ≠ 0x74 ∧ b ≠ 0x66 ∧
      b ≠ 0x5d := by
  rcases h with rfl | digit
  · decide
  · simp only [isDigit, Bool.and_eq_true, decide_eq_true_eq, UInt8.le_iff_toNat_le,
      UInt8.reduceToNat] at digit
    simp only [isBlank, Bool.or_eq_false_iff, beq_eq_false_iff_ne, ne_eq, ← UInt8.toNat_inj,
      UInt8.reduceToNat]
    omega

/-- The first byte of a value is neither blank nor the end of an array. -/
theorem bytes_eq_cons {v : Value} (h : v.Spelled) :
    ∃ b rest, v.bytes = b :: rest ∧ isBlank b = false ∧ b ≠ 0x5d := by
  cases h with
  | null => exact ⟨_, _, rfl, by decide⟩
  | bool b => cases b <;> exact ⟨_, _, rfl, by decide⟩
  | integer n =>
    obtain ⟨b, rest, form, start⟩ := integerBytes_eq_cons n
    have other := number_start start
    exact ⟨b, rest, by rw [bytes, form], other.1, other.2.2.2.2.2.2.2⟩
  | text s => exact ⟨_, _, rfl, by decide⟩
  | array _ => exact ⟨_, _, rfl, by decide⟩
  | object _ _ => exact ⟨_, _, rfl, by decide⟩

/-! ## Reading -/

theorem readsBack_integer (n : Int) : ReadsBack (.integer n) := by
  intro fuel rest enough ends
  obtain ⟨b, more, form, start⟩ := integerBytes_eq_cons n
  have lexed := lexNumber_integerBytes ends n
  obtain ⟨blank, quote, bracket, brace, null, yes, no, -⟩ := number_start start
  rw [bytes, form] at enough ⊢
  rw [form] at lexed
  cases fuel with
  | zero => simp at enough
  | succ fuel =>
    rw [List.cons_append, readValue, skipBlanks_cons blank]
    simp only [if_neg quote, if_neg bracket, if_neg brace, if_neg null, if_neg yes, if_neg no]
    exact lexed

theorem readsBack_text (s : String) : ReadsBack (.text (some s)) := by
  intro fuel rest enough _
  obtain ⟨pieces, lexed, meaning⟩ := lexString_quoteBytes s rest
  rw [bytes, quoteBytes] at enough ⊢
  cases fuel with
  | zero => simp at enough
  | succ fuel =>
    rw [List.cons_append, readValue, skipBlanks_cons (by decide)]
    simp only [Option.getD_some, if_true]
    rw [List.append_assoc, List.singleton_append, lexed, Option.map_some, meaning]

/-- What follows an item does not go on with it. -/
theorem endsNumber_cons {b : UInt8} (h : b = 0x2c ∨ b = 0x5d ∨ b = 0x7d) (rest : List UInt8) :
    EndsNumber (b :: rest) := by
  intro first same
  rw [List.head?_cons, Option.mem_some_iff] at same
  subst same
  rcases h with rfl | rfl | rfl <;> decide

theorem readItems_itemBytes {v : Value} {items : List Value}
    (readable : ∀ w ∈ v :: items, ReadsBack w) (before : List Value) (fuel : Nat)
    (rest : List UInt8) (enough : 2 * (itemBytes true (v :: items)).length + 1 ≤ fuel) :
    readItems fuel before (itemBytes true (v :: items) ++ 0x5d :: rest) =
      some (.array (before.reverse ++ v :: items), rest) := by
  -- an item costs one step here and its own steps within, and its bytes and comma pay for both
  induction items generalizing v before fuel with
  | nil =>
    obtain ⟨fuel, rfl⟩ : ∃ f, fuel = f + 1 := ⟨fuel - 1, by omega⟩
    rw [itemBytes_first, itemBytes, List.append_nil] at enough ⊢
    rw [readItems, readable v List.mem_cons_self fuel _ (by omega)
      (endsNumber_cons (.inr (.inl rfl)) rest)]
    simp only [skipBlanks_cons (b := 0x5d) (by decide), List.reverse_cons]
  | cons w items ih =>
    obtain ⟨fuel, rfl⟩ : ∃ f, fuel = f + 1 := ⟨fuel - 1, by omega⟩
    rw [itemBytes_first, itemBytes_later, List.length_append, List.length_cons] at enough
    rw [itemBytes_first, itemBytes_later, List.append_assoc, List.cons_append, readItems,
      readable v List.mem_cons_self fuel _ (by omega) (endsNumber_cons (.inl rfl) _)]
    simp only [skipBlanks_cons (b := 0x2c) (by decide)]
    rw [ih (fun u mem => readable u (List.mem_cons_of_mem _ mem)) _ _ (by omega)]
    simp

theorem readsBack_array {items : List Value} (spelled : ∀ v ∈ items, v.Spelled)
    (readable : ∀ v ∈ items, ReadsBack v) : ReadsBack (.array items) := by
  intro fuel rest enough _
  rw [bytes, List.length_cons, List.length_append] at enough
  obtain ⟨fuel, rfl⟩ : ∃ f, fuel = f + 1 := ⟨fuel - 1, by omega⟩
  rw [bytes, List.cons_append, readValue, skipBlanks_cons (by decide)]
  simp only [List.append_assoc, List.singleton_append]
  rw [if_neg (by decide), if_pos trivial]
  cases items with
  | nil =>
    rw [itemBytes, List.nil_append, skipBlanks_cons (by decide)]
    rfl
  | cons v items =>
    obtain ⟨b, more, form, blank, bracket⟩ := bytes_eq_cons (spelled v List.mem_cons_self)
    have read := readItems_itemBytes readable [] fuel rest (by simp at enough ⊢; omega)
    rw [itemBytes_first, form] at read ⊢
    simp only [List.cons_append] at read ⊢
    rw [skipBlanks_cons blank]
    -- the array is not taken for an empty one
    split
    · rename_i same
      exact absurd (List.cons.inj same).1 bracket
    · exact read

section Member

variable (name : String) (before : List (Option String × Value)) {fuel : Nat} {v : Value}
  {text rest : List UInt8}

/-- A member is read up to the comma before the next one. -/
theorem readMembers_comma (read : readValue fuel text = some (v, 0x2c :: rest)) :
    readMembers (fuel + 1) before (quoteBytes name ++ 0x3a :: text) =
      readMembers fuel ((some name, v) :: before) rest := by
  obtain ⟨pieces, lexed, meaning⟩ := lexString_quoteBytes name (0x3a :: text)
  rw [quoteBytes, List.cons_append, readMembers, skipBlanks_cons (by decide)]
  simp only [List.append_assoc, List.singleton_append]
  rw [lexed]
  simp only [skipBlanks_cons (b := 0x3a) (by decide), skipBlanks_cons (b := 0x2c) (by decide), read,
    meaning]

/-- The last member is read up to the closing brace. -/
theorem readMembers_brace (read : readValue fuel text = some (v, 0x7d :: rest)) :
    readMembers (fuel + 1) before (quoteBytes name ++ 0x3a :: text) =
      some (.object (before.reverse ++ [(some name, v)]), rest) := by
  obtain ⟨pieces, lexed, meaning⟩ := lexString_quoteBytes name (0x3a :: text)
  rw [quoteBytes, List.cons_append, readMembers, skipBlanks_cons (by decide)]
  simp only [List.append_assoc, List.singleton_append]
  rw [lexed]
  simp only [skipBlanks_cons (b := 0x3a) (by decide), skipBlanks_cons (b := 0x7d) (by decide), read,
    meaning, List.reverse_cons]

end Member

theorem readMembers_memberBytes {m : Option String × Value}
    {members : List (Option String × Value)} (named : ∀ e ∈ m :: members, e.1.isSome)
    (readable : ∀ e ∈ m :: members, ReadsBack e.2) (before : List (Option String × Value))
    (fuel : Nat) (rest : List UInt8)
    (enough : 2 * (memberBytes true (m :: members)).length + 1 ≤ fuel) :
    readMembers fuel before (memberBytes true (m :: members) ++ 0x7d :: rest) =
      some (.object (before.reverse ++ m :: members), rest) := by
  induction members generalizing m before fuel with
  | nil =>
    obtain ⟨fuel, rfl⟩ : ∃ f, fuel = f + 1 := ⟨fuel - 1, by omega⟩
    obtain ⟨name, v⟩ := m
    obtain ⟨name, rfl⟩ := Option.isSome_iff_exists.mp (named _ List.mem_cons_self)
    rw [memberBytes_first, memberBytes, List.append_nil, List.length_append, List.length_cons,
      Option.getD_some] at enough
    have read := readable _ List.mem_cons_self fuel (0x7d :: rest) (by dsimp only; omega)
      (endsNumber_cons (.inr (.inr rfl)) rest)
    rw [memberBytes_first, memberBytes, List.append_nil, List.append_assoc, List.cons_append,
      Option.getD_some, readMembers_brace name before read]
  | cons w members ih =>
    obtain ⟨fuel, rfl⟩ : ∃ f, fuel = f + 1 := ⟨fuel - 1, by omega⟩
    obtain ⟨name, v⟩ := m
    obtain ⟨name, rfl⟩ := Option.isSome_iff_exists.mp (named _ List.mem_cons_self)
    rw [memberBytes_first, memberBytes_later, List.length_append, List.length_cons,
      List.length_append, List.length_cons, Option.getD_some] at enough
    have read := readable _ List.mem_cons_self fuel
      (0x2c :: (memberBytes true (w :: members) ++ 0x7d :: rest)) (by dsimp only; omega)
      (endsNumber_cons (.inl rfl) _)
    rw [memberBytes_first, memberBytes_later, List.append_assoc, List.cons_append,
      List.append_assoc, List.cons_append, Option.getD_some, readMembers_comma name before read,
      ih (fun e mem => named e (List.mem_cons_of_mem _ mem))
      (fun e mem => readable e (List.mem_cons_of_mem _ mem)) _ _ (by omega)]
    simp

theorem readsBack_object {members : List (Option String × Value)}
    (named : ∀ m ∈ members, m.1.isSome) (readable : ∀ m ∈ members, ReadsBack m.2) :
    ReadsBack (.object members) := by
  intro fuel rest enough _
  rw [bytes, List.length_cons, List.length_append, List.length_singleton] at enough
  obtain ⟨fuel, rfl⟩ : ∃ f, fuel = f + 1 := ⟨fuel - 1, by omega⟩
  rw [bytes, List.cons_append, readValue, skipBlanks_cons (by decide)]
  simp only [List.append_assoc, List.singleton_append]
  rw [if_neg (by decide), if_neg (by decide), if_pos trivial]
  cases members with
  | nil =>
    rw [memberBytes, List.nil_append, skipBlanks_cons (by decide)]
    rfl
  | cons m members =>
    have read := readMembers_memberBytes named readable [] fuel rest (by omega)
    obtain ⟨name, v⟩ := m
    rw [memberBytes_first, quoteBytes] at read ⊢
    simp only [List.cons_append] at read ⊢
    rw [skipBlanks_cons (by decide)]
    exact read

theorem readsBack {v : Value} (h : v.Spelled) : ReadsBack v := by
  induction h with
  | null =>
    rintro (_ | fuel) rest enough -
    · exact absurd enough (by decide)
    · rfl
  | bool b =>
    rintro (_ | fuel) rest enough -
    · cases b <;> exact absurd enough (by decide)
    · cases b <;> rfl
  | integer n => exact readsBack_integer n
  | text s => exact readsBack_text s
  | array spelled ih => exact readsBack_array spelled ih
  | object named _ ih => exact readsBack_object named ih

/-- A value is read back from its text. -/
theorem ofBytes?_render {v : Value} (h : v.Spelled) :
    Value.ofBytes? v.render.toUTF8.toList = some v := by
  have read := readsBack h (2 * v.bytes.length + 2) [] (by omega) (by simp [EndsNumber])
  rw [List.append_nil] at read
  unfold Value.ofBytes?
  rw [utf8_render, read]
  rfl

end ModularSynth.Json
