import Mathlib
import LatentTopics.Corpus.Block.Binary
import LatentTopics.Proofs.Corpus.Words

/-! The form of a block as bytes, stated without the reader and the writer. What has the form is
read, token by token, and written back as the same bytes; nothing else is read. -/
namespace LatentTopics

def Document.unswept (tokens : List Token) : Document :=
  ⟨tokens.toArray, 0⟩

theorem Document.ofTokens_eq_unswept {tokens : List Token}
    (sorted : tokens.Pairwise fun first second => first.word ≤ second.word) :
    ofTokens tokens = unswept tokens := by
  rw [ofTokens, unswept, List.mergeSort_of_pairwise]
  simpa only [decide_eq_true_eq] using sorted

namespace Block

/-- Four bytes with the low one first. Their highest bit is
clear, so that as a signed number they are not negative. -/
inductive Spells : List UInt8 → Nat → Prop where
  | bytes (a b c d : UInt8) (clear : d.toNat < 128) :
      Spells [a, b, c, d] (a.toNat + 256 * b.toNat + 65536 * c.toNat + 16777216 * d.toNat)

section Items

variable {α : Type}

inductive SpellsEach (item : List UInt8 → α → Prop) : List UInt8 → List α → Prop where
  | nil : SpellsEach item [] []
  | cons {front rest : List UInt8} {value : α} {values : List α} (first : item front value)
      (others : SpellsEach item rest values) : SpellsEach item (front ++ rest) (value :: values)

inductive SpellsCounted (item : List UInt8 → α → Prop) : List UInt8 → List α → Prop where
  | counted {count body : List UInt8} {values : List α} (length : Spells count values.length)
      (each : SpellsEach item body values) : SpellsCounted item (count ++ body) values

end Items

inductive SpellsToken : List UInt8 → Token → Prop where
  | pair {first second : List UInt8} {word topic : Nat} (ofWord : Spells first word)
      (ofTopic : Spells second topic) :
      SpellsToken (first ++ second) ⟨word, topic⟩

structure SpellsDocument (bytes : List UInt8) (tokens : List Token) : Prop where
  counted : SpellsCounted SpellsToken bytes tokens
  sorted : tokens.Pairwise fun first second => first.word ≤ second.word

/-- The documents of a block, each as its tokens. -/
def SpellsBlock : List UInt8 → List (List Token) → Prop :=
  SpellsCounted SpellsDocument

def unswept (docs : List (List Token)) : Block :=
  ⟨(docs.map Document.unswept).toArray⟩

section Numbers

variable {bytes rest : List UInt8} {number : Nat}

theorem Spells.lt (spelled : Spells bytes number) : number < 2147483648 := by
  cases spelled with
  | bytes a b c d clear =>
      have := a.toNat_lt
      have := b.toNat_lt
      have := c.toNat_lt
      omega

theorem Spells.encode32 (spelled : Spells bytes number) : encode32 number = bytes := by
  cases spelled with
  | bytes a b c d clear =>
      have := a.toNat_lt
      have := b.toNat_lt
      have := c.toNat_lt
      simp only [Block.encode32, List.cons.injEq, and_true]
      refine ⟨?_, ?_, ?_, ?_⟩ <;>
      · apply UInt8.toNat_inj.mp
        rw [UInt8.toNat_ofNat']
        omega

theorem spells_encode32 (small : number < 2147483648) : Spells (encode32 number) number := by
  have clear : (UInt8.ofNat (number / 16777216)).toNat < 128 := by
    rw [UInt8.toNat_ofNat']
    omega
  have spelled := Spells.bytes (UInt8.ofNat number) (UInt8.ofNat (number / 256))
    (UInt8.ofNat (number / 65536)) _ clear
  simp only [UInt8.toNat_ofNat'] at spelled
  have whole : number % 2 ^ 8 + 256 * (number / 256 % 2 ^ 8) + 65536 * (number / 65536 % 2 ^ 8) +
      16777216 * (number / 16777216 % 2 ^ 8) = number := by
    omega
  rwa [whole] at spelled

theorem decode32_sound (read : decode32 bytes = .ok ((number : Int), rest)) :
    ∃ front, Spells front number ∧ front ++ rest = bytes := by
  match bytes, read with
  | a :: b :: c :: d :: others, read =>
      simp only [decode32, Except.ok.injEq, Prod.mk.injEq] at read
      obtain ⟨value, rfl⟩ := read
      have := a.toNat_lt
      have := b.toNat_lt
      have := c.toNat_lt
      have := d.toNat_lt
      rw [Number.narrow_eq_bmod, Int.bmod_def] at value
      refine ⟨[a, b, c, d], ?_, rfl⟩
      obtain rfl : a.toNat + 256 * b.toNat + 65536 * c.toNat + 16777216 * d.toNat = number := by
        omega
      exact .bytes a b c d (by omega)

theorem Spells.decode32 (spelled : Spells bytes number) (rest : List UInt8) :
    decode32 (bytes ++ rest) = .ok ((number : Int), rest) := by
  have small := spelled.lt
  cases spelled with
  | bytes a b c d clear =>
      simp only [List.cons_append, List.nil_append, Block.decode32]
      rw [Number.narrow_eq_self (by omega) (by omega)]

theorem Spells.encodeLength (spelled : Spells bytes number) : encodeLength number = .ok bytes := by
  have small := spelled.lt
  rw [Block.encodeLength, if_neg (by omega), spelled.encode32]

end Numbers

section Reading

variable {bytes rest : List UInt8}

theorem decodeTokens_sound {document count : Nat} {before found : List Token}
    (read : decodeTokens document count before bytes = .ok (found, rest)) :
    ∃ front tokens, SpellsEach SpellsToken front tokens ∧ tokens.length = count ∧
      front ++ rest = bytes ∧
      found = tokens.reverse ++ before := by
  induction count generalizing before bytes with
  | zero =>
      obtain ⟨rfl, rfl⟩ := Prod.mk.inj (Except.ok.inj read)
      exact ⟨[], [], .nil, rfl, rfl, rfl⟩
  | succ count ih =>
      rw [decodeTokens] at read
      split at read
      · cases read
      · next word afterWord readWord =>
        split at read
        · cases read
        · next topic afterTopic readTopic =>
          split at read
          · cases read
          · next signs =>
            rw [not_or, not_lt, not_lt] at signs
            rw [← Int.toNat_of_nonneg signs.1] at readWord
            rw [← Int.toNat_of_nonneg signs.2] at readTopic
            obtain ⟨first, ofWord, rfl⟩ := decode32_sound readWord
            obtain ⟨second, ofTopic, rfl⟩ := decode32_sound readTopic
            obtain ⟨front, tokens, each, rfl, rfl, rfl⟩ := ih read
            refine ⟨first ++ second ++ front, _, .cons (.pair ofWord ofTopic) each, rfl, ?_, ?_⟩
            · simp only [List.append_assoc]
            · simp only [List.reverse_cons, List.append_assoc, List.cons_append, List.nil_append]

theorem decodeTokens_complete (document : Nat) {tokens : List Token}
    (each : SpellsEach SpellsToken bytes tokens) (before : List Token) (rest : List UInt8) :
    decodeTokens document tokens.length before (bytes ++ rest) =
        .ok (tokens.reverse ++ before, rest) := by
  induction each generalizing before with
  | nil => rfl
  | cons first others ih =>
      cases first with
      | pair ofWord ofTopic =>
          simp only [List.length_cons, decodeTokens, List.append_assoc, ofWord.decode32,
            ofTopic.decode32]
          rw [if_neg (by omega), Int.toNat_natCast, Int.toNat_natCast, ih]
          simp only [List.reverse_cons, List.append_assoc, List.cons_append, List.nil_append]

theorem firstDescent_eq_none (tokens : List Token) (index : Nat) :
    firstDescent tokens index = none ↔ tokens.Pairwise fun first second =>
        first.word ≤ second.word := by
  rw [← List.isChain_iff_pairwise (R := fun first second : Token => first.word ≤ second.word)]
  induction tokens generalizing index with
  | nil => simp [firstDescent]
  | cons first rest ih =>
      cases rest with
      | nil => simp [firstDescent]
      | cons second rest =>
          rw [firstDescent, List.isChain_cons_cons]
          split
          · next descent => simp [not_le.mpr descent]
          · next ascent => rw [ih, and_iff_right (not_lt.mp ascent)]

theorem decodeDoc_sound {document : Nat} {doc : Document}
    (read : decodeDoc document bytes = .ok (doc, rest)) :
    ∃ front tokens, SpellsDocument front tokens ∧ front ++ rest = bytes ∧
      doc = .unswept tokens := by
  simp only [decodeDoc] at read
  split at read
  · cases read
  · next count afterCount readCount =>
    split at read
    · cases read
    · next sign =>
      rw [← Int.toNat_of_nonneg (not_lt.mp sign)] at readCount
      obtain ⟨length, counted, rfl⟩ := decode32_sound readCount
      split at read
      · cases read
      · next reversed afterTokens readTokens =>
        obtain ⟨body, tokens, each, same, rfl, rfl⟩ := decodeTokens_sound readTokens
        rw [List.append_nil, List.reverse_reverse] at read
        split at read
        · cases read
        · next none =>
          obtain ⟨rfl, rfl⟩ := Prod.mk.inj (Except.ok.inj read)
          have sorted := (firstDescent_eq_none tokens 0).mp none
          rw [← same] at counted
          exact ⟨length ++ body, tokens, ⟨.counted counted each, sorted⟩, List.append_assoc _ _ _,
            Document.ofTokens_eq_unswept sorted⟩

theorem SpellsDocument.decodeDoc {tokens : List Token} (spelled : SpellsDocument bytes tokens)
    (document : Nat) (rest : List UInt8) :
    decodeDoc document (bytes ++ rest) = .ok (.unswept tokens, rest) := by
  obtain ⟨counted, sorted⟩ := spelled
  cases counted with
  | counted length each =>
      simp only [Block.decodeDoc, List.append_assoc, length.decode32]
      rw [if_neg (by omega), Int.toNat_natCast, decodeTokens_complete document each]
      simp only [List.append_nil, List.reverse_reverse, (firstDescent_eq_none tokens 0).mpr sorted,
        Document.ofTokens_eq_unswept sorted]

theorem decodeDocs_sound {count document : Nat} {before found : Array Document}
    (read : decodeDocs count document before bytes = .ok (found, rest)) :
    ∃ front docs, SpellsEach SpellsDocument front docs ∧ docs.length = count ∧
      front ++ rest = bytes ∧
      found = before ++ docs.map Document.unswept := by
  induction count generalizing document before bytes with
  | zero =>
      obtain ⟨rfl, rfl⟩ := Prod.mk.inj (Except.ok.inj read)
      exact ⟨[], [], .nil, rfl, rfl, by simp⟩
  | succ count ih =>
      rw [decodeDocs] at read
      split at read
      · cases read
      · next readDoc =>
        obtain ⟨first, tokens, spelled, rfl, rfl⟩ := decodeDoc_sound readDoc
        obtain ⟨front, docs, each, rfl, rfl, rfl⟩ := ih read
        exact ⟨first ++ front, _, .cons spelled each, rfl, List.append_assoc _ _ _, by simp⟩

theorem decodeDocs_complete {docs : List (List Token)} (each : SpellsEach SpellsDocument bytes docs)
    (document : Nat) (before : Array Document) (rest : List UInt8) :
    decodeDocs docs.length document before (bytes ++ rest) =
        .ok (before ++ docs.map Document.unswept, rest) := by
  induction each generalizing document before with
  | nil => simp [decodeDocs]
  | cons first others ih =>
      simp only [List.length_cons, decodeDocs, List.append_assoc, first.decodeDoc, ih]
      simp

theorem decode_sound {block : Block} (read : decode bytes = .ok block) :
    ∃ docs, SpellsBlock bytes docs ∧ block = unswept docs := by
  cases decoded : decodeBlock bytes with
  | error cause =>
      rw [decode, decoded] at read
      cases read
  | ok found =>
      rw [decode, decoded] at read
      obtain rfl := Except.ok.inj read
      rw [decodeBlock] at decoded
      split at decoded
      · cases decoded
      · next count afterCount readCount =>
        split at decoded
        · cases decoded
        · next sign =>
          rw [← Int.toNat_of_nonneg (not_lt.mp sign)] at readCount
          obtain ⟨length, counted, rfl⟩ := decode32_sound readCount
          split at decoded
          · cases decoded
          · next readDocs =>
            obtain ⟨body, docs, each, same, rfl, rfl⟩ := decodeDocs_sound readDocs
            split_ifs at decoded with whole
            obtain rfl := Except.ok.inj decoded
            rw [← same] at counted
            rw [List.isEmpty_iff] at whole
            refine ⟨docs, ?_, by simp [unswept]⟩
            rw [whole, List.append_nil]
            exact .counted counted each

theorem SpellsBlock.decode {docs : List (List Token)} (spelled : SpellsBlock bytes docs) :
    decode bytes = .ok (unswept docs) := by
  cases spelled with
  | counted length each =>
      have readDocs := decodeDocs_complete each 0 #[] []
      rw [List.append_nil] at readDocs
      simp only [Block.decode, decodeBlock, length.decode32]
      rw [if_neg (by omega), Int.toNat_natCast, readDocs]
      simp [unswept, Except.mapError]

end Reading

section Writing

variable {bytes : List UInt8}

theorem SpellsEach.flatMap_encodeToken {tokens : List Token}
    (each : SpellsEach SpellsToken bytes tokens) :
    tokens.flatMap encodeToken = bytes := by
  induction each with
  | nil => rfl
  | cons first others ih =>
      cases first with
      | pair ofWord ofTopic =>
          rw [List.flatMap_cons, ih, encodeToken, ofWord.encode32, ofTopic.encode32]

theorem SpellsEach.encodeDocs {docs : List (List Token)}
    (each : SpellsEach SpellsDocument bytes docs) :
    encodeDocs (docs.map Document.unswept) = .ok bytes := by
  induction each with
  | nil => rfl
  | cons first others ih =>
      cases first.counted with
      | counted length tokens =>
          have size : ∀ list : List Token, (Document.unswept list).size = list.length :=
            fun _ => List.size_toArray
          have listed : ∀ list : List Token, (Document.unswept list).tokens.toList =
              list := fun _ => rfl
          simp only [List.map_cons, Block.encodeDocs, size, listed, length.encodeLength, ih,
            tokens.flatMap_encodeToken]
          rfl

theorem SpellsBlock.encode {docs : List (List Token)} (spelled : SpellsBlock bytes docs) :
    encode (unswept docs) = .ok bytes := by
  cases spelled with
  | counted length each =>
      have size : (unswept docs).docs.size = docs.length := by
        simp [unswept]
      have listed : (unswept docs).docs.toList = docs.map Document.unswept := rfl
      simp only [Block.encode, size, listed, length.encodeLength, each.encodeDocs]
      rfl

end Writing

/-- The reader accepts the bytes of blocks and no others,
reads what they spell, and loses nothing of it. -/
theorem decode_exact (bytes : List UInt8) :
    ((∃ block, decode bytes = .ok block) ↔ ∃ docs, SpellsBlock bytes docs) ∧
      (∀ docs, SpellsBlock bytes docs → decode bytes = .ok (unswept docs) ∧
      encode (unswept docs) = .ok bytes) ∧
      ((¬ ∃ docs, SpellsBlock bytes docs) → ∃ cause, decode bytes = .error (.block cause)) := by
  have accepts : (∃ block, decode bytes = .ok block) ↔ ∃ docs, SpellsBlock bytes docs := by
    constructor
    · rintro ⟨block, read⟩
      obtain ⟨docs, spelled, _⟩ := decode_sound read
      exact ⟨docs, spelled⟩
    · rintro ⟨docs, spelled⟩
      exact ⟨_, spelled.decode⟩
  refine ⟨accepts, fun docs spelled => ⟨spelled.decode, spelled.encode⟩, ?_⟩
  intro other
  cases decoded : decodeBlock bytes with
  | ok block => exact absurd (accepts.mp ⟨block, by rw [decode, decoded]; rfl⟩) other
  | error cause => exact ⟨cause, by rw [decode, decoded]; rfl⟩

theorem decode_exact_lone :
    let bytes : List UInt8 := [1, 0, 0, 0, 2, 0, 0, 0, 4, 0, 0, 0, 1, 0, 0, 0, 4, 0, 0,
        0, 0, 0, 0, 0]
    SpellsBlock bytes [[⟨4, 1⟩, ⟨4, 0⟩]] ∧ decode bytes = .ok (unswept [[⟨4, 1⟩, ⟨4, 0⟩]]) ∧
      encode (unswept [[⟨4, 1⟩, ⟨4, 0⟩]]) = .ok bytes := by
  intro bytes
  have number : ∀ byte : UInt8, Spells [byte, 0, 0, 0] byte.toNat :=
    fun byte => .bytes byte 0 0 0 (by decide)
  have token : ∀ word topic : UInt8, SpellsToken [word, 0, 0, 0, topic, 0, 0, 0] ⟨word.toNat,
      topic.toNat⟩ :=
    fun word topic => .pair (number word) (number topic)
  have tokens : SpellsEach SpellsToken (bytes.drop 8) [⟨4, 1⟩, ⟨4, 0⟩] :=
    .cons (token 4 1) (.cons (token 4 0) .nil)
  have document : SpellsDocument (bytes.drop 4) [⟨4, 1⟩, ⟨4, 0⟩] :=
    ⟨.counted (number 2) tokens, by simp⟩
  have documents : SpellsEach SpellsDocument (bytes.drop 4) [[⟨4, 1⟩, ⟨4, 0⟩]] :=
    .cons document .nil
  have length : Spells [1, 0, 0, 0] [[(⟨4, 1⟩ : Token), ⟨4, 0⟩]].length := number 1
  have spelled : SpellsBlock bytes [[⟨4, 1⟩, ⟨4, 0⟩]] := SpellsCounted.counted length documents
  exact ⟨spelled, (decode_exact bytes).2.1 _ spelled⟩

end Block

end LatentTopics
