import SourceAtlas.Proofs.Selection
import SourceAtlas.Text.Utf8

/-! Decoding undoes encoding, and the characters of a text among its bytes. A position is a boundary
if no character straddles it; single-byte characters next to a boundary lie between boundaries. -/
namespace SourceAtlas.Utf8

theorem encode_append (first second : List Char) :
    encode (first ++ second) = encode first ++ encode second := List.flatMap_append

theorem encode_cons (c : Char) (rest : List Char) :
    encode (c :: rest) = String.utf8EncodeChar c ++ encode rest := List.flatMap_cons

theorem ofNat_val (c : Char) {n : Nat} (value : n = c.val.toNat) : Char.ofNat n = c := by
  subst value
  exact Char.ofNat_toNat c

theorem pieces_longer {byte : UInt8} {state : State} (rest : List UInt8)
    (opened : opening byte = .longer state) : pieces (byte :: rest) = piecesFrom state rest := by
  simp [pieces,piecesFrom,opened]

theorem pieces_whole {byte : UInt8} {c : Char} (rest : List UInt8) (opened : opening byte = .whole c) :
    pieces (byte :: rest) = some c :: pieces rest := by
  simp [pieces,piecesFrom,opened]

theorem pieces_illFormed {byte : UInt8} (rest : List UInt8) (opened : opening byte = .illFormed) :
    pieces (byte :: rest) = none :: pieces rest := by
  simp [pieces,piecesFrom,opened]

theorem piecesFrom_last {value low high : Nat} {byte : UInt8} (rest : List UInt8)
    (above : low ≤ byte.toNat) (below : byte.toNat ≤ high) :
    piecesFrom (.within value 1 low high) (byte :: rest) =
      some (Char.ofNat (value * 64 + (byte.toNat - 0x80))) :: pieces rest := by
  simp [pieces,piecesFrom,above,below]

theorem piecesFrom_more {value left low high : Nat} {byte : UInt8} (rest : List UInt8)
    (above : low ≤ byte.toNat) (below : byte.toNat ≤ high) :
    piecesFrom (.within value (left + 2) low high) (byte :: rest) =
      piecesFrom (.within (value * 64 + (byte.toNat - 0x80)) (left + 1) 0x80 0xBF) rest := by
  simp [piecesFrom,above,below]

theorem toNat_continuation (n : Nat) : (UInt8.ofNat (n % 0x40 + 0x80)).toNat = n % 0x40 + 0x80 := by
  rw [UInt8.toNat_ofNat']
  omega

/-- The decoder reads back one encoded character, whatever follows it. The cases are the lengths of
the encoded form. -/
theorem pieces_encodeChar (c : Char) (rest : List UInt8) :
    pieces (String.utf8EncodeChar c ++ rest) = some c :: pieces rest := by
  have valid : c.val.toNat < 0xD800 ∨ 0xDFFF < c.val.toNat ∧ c.val.toNat < 0x110000 := c.valid
  unfold String.utf8EncodeChar
  generalize value : c.val.toNat = v at valid
  dsimp only
  split
  · next one =>
    have byte : (UInt8.ofNat v).toNat = v := by rw [UInt8.toNat_ofNat']; omega
    have opened : opening (UInt8.ofNat v) = .whole c := by
      simp [opening,byte,show v < 0x80 by omega,ofNat_val c value.symm]
    simp [pieces,piecesFrom,opened]
  · split
    · next two =>
      have byte : (UInt8.ofNat (v / 64 % 0x20 + 0xC0)).toNat = v / 64 + 0xC0 := by
        rw [UInt8.toNat_ofNat']; omega
      have second := toNat_continuation v
      have opened : opening (UInt8.ofNat (v / 64 % 0x20 + 0xC0)) =
          .longer (.within (v / 64) 1 0x80 0xBF) := by
        simp only [opening,byte]
        rw [if_neg (by omega),if_neg (by omega),if_pos (by omega)]
        simp
      simp only [List.cons_append,List.nil_append]
      rw [pieces_longer _ opened,piecesFrom_last _ (by omega) (by omega),second,ofNat_val c (by omega)]
    · split
      · next three =>
        have byte : (UInt8.ofNat (v / 4096 % 0x10 + 0xE0)).toNat = v / 4096 + 0xE0 := by
          rw [UInt8.toNat_ofNat']; omega
        have second := toNat_continuation (v / 64)
        have third := toNat_continuation v
        have opened : opening (UInt8.ofNat (v / 4096 % 0x10 + 0xE0)) =
            .longer (.within (v / 4096) 2 (if v / 4096 = 0 then 0xA0 else 0x80)
              (if v / 4096 = 0xD then 0x9F else 0xBF)) := by
          simp only [opening,byte]
          rw [if_neg (by omega),if_neg (by omega),if_neg (by omega),if_pos (by omega)]
          simp
        simp only [List.cons_append,List.nil_append]
        rw [pieces_longer _ opened,piecesFrom_more _ (by split <;> omega) (by split <;> omega),second,
          piecesFrom_last _ (by omega) (by omega),third,ofNat_val c (by omega)]
      · next four =>
        have byte : (UInt8.ofNat (v / 262144 % 0x08 + 0xF0)).toNat = v / 262144 + 0xF0 := by
          rw [UInt8.toNat_ofNat']; omega
        have second := toNat_continuation (v / 4096)
        have third := toNat_continuation (v / 64)
        have fourth := toNat_continuation v
        have opened : opening (UInt8.ofNat (v / 262144 % 0x08 + 0xF0)) =
            .longer (.within (v / 262144) 3 (if v / 262144 = 0 then 0x90 else 0x80)
              (if v / 262144 = 4 then 0x8F else 0xBF)) := by
          simp only [opening,byte]
          rw [if_neg (by omega),if_neg (by omega),if_neg (by omega),if_neg (by omega),if_pos (by omega)]
          simp
        simp only [List.cons_append,List.nil_append]
        rw [pieces_longer _ opened,piecesFrom_more _ (by split <;> omega) (by split <;> omega),second,
          piecesFrom_more _ (by omega) (by omega),third,piecesFrom_last _ (by omega) (by omega),fourth,
          ofNat_val c (by omega)]

theorem pieces_encode (text : List Char) : pieces (encode text) = text.map some := by
  induction text with
  | nil => rfl
  | cons c rest ih => rw [encode_cons,pieces_encodeChar,ih,List.map_cons]

theorem decode?_encode (text : List Char) : decode? (encode text) = some text := by
  rw [decode?,pieces_encode]
  induction text with
  | nil => rfl
  | cons c rest ih => simp only [List.map_cons,List.mapM_cons,ih,id_eq]; rfl

theorem encode_injective : Function.Injective encode := by
  intro first second same
  have decoded := congrArg decode? same
  rw [decode?_encode,decode?_encode] at decoded
  exact Option.some.inj decoded

theorem decodeLossy_encode (text : List Char) : decodeLossy (encode text) = text := by
  simp [decodeLossy,pieces_encode,Function.comp_def]

/-- A longer form never goes on with a byte below 0x80. -/
def State.marked : State → Prop
  | .start => True
  | .within _ _ low _ => 0x80 ≤ low

theorem opening_ascii {byte : UInt8} (ascii : byte.toNat < 0x80) :
    opening byte = .whole (Char.ofNat byte.toNat) := by
  simp [opening,ascii]

theorem marked_of_opening {byte : UInt8} {state : State} (opened : opening byte = .longer state) :
    state.marked := by
  unfold opening at opened
  dsimp only at opened
  split at opened
  · cases opened
  · split at opened
    · cases opened
    · split at opened
      · cases opened
        exact Nat.le_refl _
      · split at opened
        · cases opened
          simp only [State.marked]
          split <;> decide
        · split at opened
          · cases opened
            simp only [State.marked]
            split <;> decide
          · cases opened

/-- A byte out of place ends the form that is open and is then read as the first of the next one. -/
theorem piecesFrom_within_cons (value left low high : Nat) (byte : UInt8) (rest : List UInt8) :
    piecesFrom (.within value left low high) (byte :: rest) =
      if low ≤ byte.toNat && byte.toNat ≤ high then
        if left ≤ 1 then
          some (Char.ofNat (value * 64 + (byte.toNat - 0x80))) :: pieces rest
        else
          piecesFrom (.within (value * 64 + (byte.toNat - 0x80)) (left - 1) 0x80 0xBF) rest
      else
        none :: pieces (byte :: rest) := rfl

/-- A byte below 0x80 is a piece of its own, and it ends any longer form before it. -/
theorem piecesFrom_ascii {state : State} (marked : state.marked) (before after : List UInt8)
    {byte : UInt8} (ascii : byte.toNat < 0x80) :
    piecesFrom state (before ++ byte :: after) =
      piecesFrom state before ++ some (Char.ofNat byte.toNat) :: pieces after := by
  have opened := opening_ascii ascii
  induction before generalizing state with
  | nil =>
    cases state with
    | start => simp [piecesFrom,opened,pieces]
    | within value left low high =>
      have above : ¬low ≤ byte.toNat := Nat.not_le_of_lt (Nat.lt_of_lt_of_le ascii marked)
      simp [piecesFrom,above,opened,pieces]
  | cons first before ih =>
    have fresh : pieces (before ++ byte :: after) =
        pieces before ++ some (Char.ofNat byte.toNat) :: pieces after := @ih .start trivial
    have opens : pieces (first :: (before ++ byte :: after)) =
        pieces (first :: before) ++ some (Char.ofNat byte.toNat) :: pieces after := by
      cases shape : opening first with
      | whole c => simp [pieces_whole _ shape,fresh]
      | longer next => simpa only [pieces_longer _ shape] using ih (marked_of_opening shape)
      | illFormed => simp [pieces_illFormed _ shape,fresh]
    cases state with
    | start => exact opens
    | within value left low high =>
      simp only [List.cons_append,piecesFrom_within_cons]
      split
      · split
        · rw [fresh,List.cons_append]
        · exact @ih (.within _ _ 0x80 0xBF) (Nat.le_refl _)
      · rw [opens,List.cons_append]

theorem decodeLossy_ascii (before after : List UInt8) {byte : UInt8} (ascii : byte.toNat < 0x80) :
    decodeLossy (before ++ byte :: after) =
      decodeLossy before ++ Char.ofNat byte.toNat :: decodeLossy after := by
  have marked : State.start.marked := trivial
  rw [decodeLossy,pieces,piecesFrom_ascii marked before after ascii,List.map_append,List.map_cons]
  rfl

theorem pieces_of_decode? {bytes : List UInt8} {text : List Char} (decoded : decode? bytes = some text) :
    pieces bytes = text.map some := by
  unfold decode? at decoded
  generalize pieces bytes = parts at decoded
  induction parts generalizing text with
  | nil =>
    cases decoded
    rfl
  | cons part parts ih =>
    simp only [List.mapM_cons,id_eq,Option.bind_eq_bind,Option.bind_eq_some_iff] at decoded
    obtain ⟨c,rfl,rest,later,returned⟩ := decoded
    cases returned
    rw [ih later,List.map_cons]

/-- Where a strict reader gives a text, a lossy one gives the same text. -/
theorem decodeLossy_of_decode? {bytes : List UInt8} {text : List Char} (decoded : decode? bytes = some text) :
    decodeLossy bytes = text := by
  rw [decodeLossy,pieces_of_decode? decoded,List.map_map]
  exact List.map_id text

theorem byte_ext {n : Nat} (byte : UInt8) (same : n = byte.toNat) : UInt8.ofNat n = byte := by
  rw [same,UInt8.ofNat_toNat]

theorem exists_of_last {value low high : Nat} {bytes : List UInt8} {c : Char} {more : List (Option Char)}
    (read : piecesFrom (.within value 1 low high) bytes = some c :: more) :
    ∃ byte rest, bytes = byte :: rest ∧ low ≤ byte.toNat ∧ byte.toNat ≤ high ∧
      Char.ofNat (value * 64 + (byte.toNat - 0x80)) = c ∧ pieces rest = more := by
  cases bytes with
  | nil => cases read
  | cons byte rest =>
    rw [piecesFrom_within_cons] at read
    split at read
    · next inside =>
      obtain ⟨above,below⟩ := Bool.and_eq_true_iff.mp inside
      obtain ⟨head,tail⟩ := List.cons.inj read
      exact ⟨byte,rest,rfl,of_decide_eq_true above,of_decide_eq_true below,Option.some.inj head,tail⟩
    · cases read

theorem exists_of_more {value left low high : Nat} {bytes : List UInt8} {c : Char}
    {more : List (Option Char)}
    (read : piecesFrom (.within value (left + 2) low high) bytes = some c :: more) :
    ∃ byte rest, bytes = byte :: rest ∧ low ≤ byte.toNat ∧ byte.toNat ≤ high ∧
      piecesFrom (.within (value * 64 + (byte.toNat - 0x80)) (left + 1) 0x80 0xBF) rest =
        some c :: more := by
  cases bytes with
  | nil => cases read
  | cons byte rest =>
    rw [piecesFrom_within_cons] at read
    split at read
    · next inside =>
      obtain ⟨above,below⟩ := Bool.and_eq_true_iff.mp inside
      exact ⟨byte,rest,rfl,of_decide_eq_true above,of_decide_eq_true below,read⟩
    · cases read


theorem val_ofNat {n : Nat} (valid : n < 0xD800 ∨ 0xDFFF < n ∧ n < 0x110000) :
    (Char.ofNat n).val.toNat = n := by
  have isValid : n.isValidChar := valid
  rw [Char.ofNat,dif_pos isValid]
  rfl

theorem encodeChar_one {c : Char} {byte : UInt8} (value : c.val.toNat = byte.toNat)
    (below : byte.toNat < 0x80) : String.utf8EncodeChar c = [byte] := by
  unfold String.utf8EncodeChar
  dsimp only
  rw [value,if_pos (by omega),byte_ext _ rfl]

theorem encodeChar_two {c : Char} {first second : UInt8}
    (value : c.val.toNat = (first.toNat - 0xC0) * 64 + (second.toNat - 0x80))
    (above : 0xC2 ≤ first.toNat) (below : first.toNat < 0xE0)
    (above₂ : 0x80 ≤ second.toNat) (below₂ : second.toNat ≤ 0xBF) :
    String.utf8EncodeChar c = [first,second] := by
  unfold String.utf8EncodeChar
  dsimp only
  rw [if_neg (by omega),if_pos (by omega),byte_ext first (by omega),
    byte_ext second (by omega)]

theorem encodeChar_three {c : Char} {first second third : UInt8}
    (value : c.val.toNat =
      ((first.toNat - 0xE0) * 64 + (second.toNat - 0x80)) * 64 + (third.toNat - 0x80))
    (above : 0xE0 ≤ first.toNat) (below : first.toNat < 0xF0)
    (above₂ : (if first.toNat = 0xE0 then 0xA0 else 0x80) ≤ second.toNat) (below₂ : second.toNat ≤ 0xBF)
    (above₃ : 0x80 ≤ third.toNat) (below₃ : third.toNat ≤ 0xBF) :
    String.utf8EncodeChar c = [first,second,third] := by
  have tail : 0x80 ≤ second.toNat := Nat.le_trans (by split <;> decide) above₂
  have long : 0x800 ≤ c.val.toNat := by
    split at above₂ <;> omega
  unfold String.utf8EncodeChar
  dsimp only
  rw [if_neg (by omega),if_neg (by omega),if_pos (by omega),byte_ext first (by omega),
    byte_ext second (by omega),byte_ext third (by omega)]

theorem encodeChar_four {c : Char} {first second third fourth : UInt8}
    (value : c.val.toNat = (((first.toNat - 0xF0) * 64 + (second.toNat - 0x80)) * 64 +
      (third.toNat - 0x80)) * 64 + (fourth.toNat - 0x80))
    (above : 0xF0 ≤ first.toNat) (below : first.toNat < 0xF5)
    (above₂ : (if first.toNat = 0xF0 then 0x90 else 0x80) ≤ second.toNat) (below₂ : second.toNat ≤ 0xBF)
    (above₃ : 0x80 ≤ third.toNat) (below₃ : third.toNat ≤ 0xBF)
    (above₄ : 0x80 ≤ fourth.toNat) (below₄ : fourth.toNat ≤ 0xBF) :
    String.utf8EncodeChar c = [first,second,third,fourth] := by
  have tail : 0x80 ≤ second.toNat := Nat.le_trans (by split <;> decide) above₂
  have long : 0x10000 ≤ c.val.toNat := by
    split at above₂ <;> omega
  unfold String.utf8EncodeChar
  dsimp only
  rw [if_neg (by omega),if_neg (by omega),if_neg (by omega),byte_ext first (by omega),
    byte_ext second (by omega),byte_ext third (by omega),
    byte_ext fourth (by omega)]

/-- The bytes of a piece that is a character are the encoded form of that character. The cases are the
ranges of the first byte. -/
theorem exists_of_pieces {bytes : List UInt8} {c : Char} {more : List (Option Char)}
    (read : pieces bytes = some c :: more) :
    ∃ rest, bytes = String.utf8EncodeChar c ++ rest ∧ pieces rest = more := by
  cases bytes with
  | nil => cases read
  | cons first rest =>
    have shape : opening first = opening first := rfl
    conv_rhs at shape => unfold opening
    dsimp only at shape
    split at shape
    · next ascii =>
      rw [pieces_whole rest shape] at read
      obtain ⟨same,later⟩ := List.cons.inj read
      cases same
      exact ⟨rest,by rw [encodeChar_one (val_ofNat (by omega)) ascii]; rfl,later⟩
    · split at shape
      · rw [pieces_illFormed rest shape] at read
        cases read
      · split at shape
        · rw [pieces_longer rest shape] at read
          obtain ⟨second,rest,rfl,above₂,below₂,rfl,later⟩ := exists_of_last read
          exact ⟨rest,by rw [encodeChar_two (val_ofNat (by omega)) (by omega) (by omega) above₂ below₂]; rfl,
            later⟩
        · split at shape
          · rw [pieces_longer rest shape] at read
            obtain ⟨second,rest,rfl,above₂,below₂,read⟩ := exists_of_more read
            obtain ⟨third,rest,rfl,above₃,below₃,rfl,later⟩ := exists_of_last read
            have high : second.toNat ≤ 0xBF := Nat.le_trans below₂ (by split <;> decide)
            have value := @val_ofNat (((first.toNat - 0xE0) * 64 + (second.toNat - 0x80)) * 64 +
              (third.toNat - 0x80)) (by split at below₂ <;> omega)
            exact ⟨rest,by rw [encodeChar_three value (by omega) (by omega) above₂ high above₃ below₃]; rfl,
              later⟩
          · split at shape
            · rw [pieces_longer rest shape] at read
              obtain ⟨second,rest,rfl,above₂,below₂,read⟩ := exists_of_more read
              obtain ⟨third,rest,rfl,above₃,below₃,read⟩ := exists_of_more read
              obtain ⟨fourth,rest,rfl,above₄,below₄,rfl,later⟩ := exists_of_last read
              have high : second.toNat ≤ 0xBF := Nat.le_trans below₂ (by split <;> decide)
              have value := @val_ofNat ((((first.toNat - 0xF0) * 64 + (second.toNat - 0x80)) * 64 +
                (third.toNat - 0x80)) * 64 + (fourth.toNat - 0x80))
                (.inr (by split at above₂ <;> split at below₂ <;> omega))
              refine ⟨rest,?_,later⟩
              rw [encodeChar_four value (by omega) (by omega) above₂ high above₃ below₃ above₄ below₄]
              rfl
            · rw [pieces_illFormed rest shape] at read
              cases read

theorem piecesFrom_within_ne_nil (value left low high : Nat) (bytes : List UInt8) :
    piecesFrom (.within value left low high) bytes ≠ [] := by
  induction bytes generalizing value left low high with
  | nil => exact List.cons_ne_nil _ _
  | cons byte rest ih =>
    rw [piecesFrom_within_cons]
    split
    · split
      · exact List.cons_ne_nil _ _
      · exact ih _ _ _ _
    · exact List.cons_ne_nil _ _

theorem pieces_ne_nil (byte : UInt8) (rest : List UInt8) : pieces (byte :: rest) ≠ [] := by
  cases opened : opening byte with
  | whole c => rw [pieces_whole rest opened]; exact List.cons_ne_nil _ _
  | illFormed => rw [pieces_illFormed rest opened]; exact List.cons_ne_nil _ _
  | longer state =>
    rw [pieces_longer rest opened]
    cases state with
    | within value left low high => exact piecesFrom_within_ne_nil value left low high rest
    | start =>
      unfold opening at opened
      dsimp only at opened
      repeat' split at opened
      all_goals cases opened

theorem encode_of_pieces {text : List Char} {bytes : List UInt8} (read : pieces bytes = text.map some) :
    encode text = bytes := by
  induction text generalizing bytes with
  | nil =>
    cases bytes with
    | nil => rfl
    | cons byte rest => exact absurd read (pieces_ne_nil byte rest)
  | cons c text ih =>
    obtain ⟨rest,rfl,later⟩ := exists_of_pieces read
    rw [encode_cons,ih later]

/-- Only the encoded form of a text is read as that text. -/
theorem encode_of_decode? {bytes : List UInt8} {text : List Char} (decoded : decode? bytes = some text) :
    encode text = bytes := encode_of_pieces (pieces_of_decode? decoded)

theorem decode?_eq_some_iff {bytes : List UInt8} {text : List Char} :
    decode? bytes = some text ↔ encode text = bytes :=
  ⟨encode_of_decode?,fun encoded => encoded ▸ decode?_encode text⟩

/-- The characters of a text with the positions of their first bytes, the first one at `offset`. -/
def placed (offset : Nat) : List Char → List (Char × Nat)
  | [] => []
  | c :: rest => (c,offset) :: placed (offset + c.utf8Size) rest

/-- The characters whose first byte passes a test, in order. -/
def selectCharacters (test : Nat → Bool) (text : List Char) (offset : Nat := 0) : List Char :=
  ((placed offset text).filter fun entry => test entry.2).map Prod.fst

/-- A position in the bytes of a text where a character starts or the text ends. -/
def IsBoundary (text : List Char) (position : Nat) : Prop :=
  ∃ before after, text = before ++ after ∧ (encode before).length = position

theorem mem_placed {text : List Char} {offset position : Nat} {c : Char}
    (inside : (c,position) ∈ placed offset text) :
    ∃ before after, text = before ++ c :: after ∧ position = offset + (encode before).length := by
  induction text generalizing offset with
  | nil => simp [placed] at inside
  | cons first rest ih =>
    rcases List.mem_cons.mp inside with here | later
    · obtain ⟨rfl,rfl⟩ := Prod.mk.inj here
      exact ⟨[],rest,rfl,rfl⟩
    · obtain ⟨before,after,rfl,rfl⟩ := ih later
      refine ⟨first :: before,after,rfl,?_⟩
      simp only [encode_cons,List.length_append,String.length_utf8EncodeChar]
      omega

theorem boundary_beside {text : List Char} {boundary position : Nat} {c : Char}
    (bound : IsBoundary text boundary) (inside : (c,position) ∈ placed 0 text) :
    boundary ≤ position ∨ position + c.utf8Size ≤ boundary := by
  obtain ⟨before,after,split,rfl⟩ := bound
  obtain ⟨front,back,other,rfl⟩ := mem_placed inside
  rcases List.append_eq_append_iff.mp (split.symm.trans other) with ⟨more,whole,_⟩ | ⟨more,whole,rest⟩
  · left
    simp only [whole,encode_append,List.length_append]
    omega
  · cases more with
    | nil => left; simp [whole]
    | cons d more =>
      obtain ⟨rfl,_⟩ := List.cons.inj rest
      right
      simp only [whole,encode_append,encode_cons,List.length_append,String.length_utf8EncodeChar]
      omega

/-- A test that treats the bytes of each character alike selects whole characters. -/
theorem select_encode {test : Nat → Bool} {text : List Char} (offset : Nat)
    (whole : ∀ c position, (c,position) ∈ placed offset text →
      ∀ i, position ≤ i → i < position + c.utf8Size → test i = test position) :
    select test (encode text) offset = encode (selectCharacters test text offset) := by
  induction text generalizing offset with
  | nil => rfl
  | cons c rest ih =>
    have here := whole c offset (by simp [placed])
    have later := ih (offset + c.utf8Size) fun d position inside =>
      whole d position (List.mem_cons_of_mem _ inside)
    rw [encode_cons,select_append,String.length_utf8EncodeChar,later]
    by_cases kept : test offset = true
    · rw [select_all offset fun i low high => (here i low (by simpa using high)).trans kept]
      simp [selectCharacters,placed,kept,encode_cons]
    · rw [select_none offset fun i low high => (here i low (by simpa using high)).trans (by simpa using kept)]
      simp [selectCharacters,placed,kept]

private theorem marked_high (n modulus mark : Nat) (positive : 0 < modulus) (high : 0x80 ≤ mark)
    (fits : modulus + mark ≤ 0x100) : 0x80 ≤ (UInt8.ofNat (n % modulus + mark)).toNat := by
  have := Nat.mod_lt n positive
  rw [UInt8.toNat_ofNat']
  omega

/-- A byte below 0x80 is a character of its own: the bytes of the longer forms are all marked. -/
theorem utf8Size_of_ascii {c : Char} {byte : UInt8} (inside : byte ∈ String.utf8EncodeChar c)
    (ascii : byte.toNat < 0x80) : c.utf8Size = 1 := by
  rw [← String.length_utf8EncodeChar]
  by_contra longer
  have high : ∀ byte ∈ String.utf8EncodeChar c, 0x80 ≤ byte.toNat := by
    unfold String.utf8EncodeChar at longer ⊢
    dsimp only at longer ⊢
    split
    · next one => exact absurd (by rw [if_pos one]; rfl) longer
    · split
      · simp only [List.forall_mem_cons,List.not_mem_nil,false_implies,implies_true,and_true]
        exact ⟨marked_high _ _ _ (by decide) (by decide) (by decide),
          marked_high _ _ _ (by decide) (by decide) (by decide)⟩
      · split
        · simp only [List.forall_mem_cons,List.not_mem_nil,false_implies,implies_true,and_true]
          exact ⟨marked_high _ _ _ (by decide) (by decide) (by decide),
            marked_high _ _ _ (by decide) (by decide) (by decide),
            marked_high _ _ _ (by decide) (by decide) (by decide)⟩
        · simp only [List.forall_mem_cons,List.not_mem_nil,false_implies,implies_true,and_true]
          exact ⟨marked_high _ _ _ (by decide) (by decide) (by decide),
            marked_high _ _ _ (by decide) (by decide) (by decide),
            marked_high _ _ _ (by decide) (by decide) (by decide),
            marked_high _ _ _ (by decide) (by decide) (by decide)⟩
  have := high byte inside
  omega

theorem boundary_succ {text : List Char} {position : Nat} {byte : UInt8}
    (bound : IsBoundary text position) (read : (encode text)[position]? = some byte)
    (ascii : byte.toNat < 0x80) : IsBoundary text (position + 1) := by
  obtain ⟨before,after,rfl,rfl⟩ := bound
  rw [encode_append,List.getElem?_append_right (Nat.le_refl _),Nat.sub_self] at read
  cases after with
  | nil => simp [encode] at read
  | cons c rest =>
    have member : byte ∈ String.utf8EncodeChar c := by
      have positive := Char.utf8Size_pos c
      rw [encode_cons,List.getElem?_append_left (by simpa using positive)] at read
      exact List.mem_of_getElem? read
    have single := utf8Size_of_ascii member ascii
    exact ⟨before ++ [c],rest,by simp,by simp [encode,single]⟩

theorem boundary_pred {text : List Char} {position : Nat} {byte : UInt8}
    (bound : IsBoundary text (position + 1)) (read : (encode text)[position]? = some byte)
    (ascii : byte.toNat < 0x80) : IsBoundary text position := by
  obtain ⟨before,after,rfl,size⟩ := bound
  obtain rfl | ⟨front,c,rfl⟩ := List.eq_nil_or_concat before
  · simp [encode] at size
  · have length : (encode front).length + c.utf8Size = position + 1 := by
      simpa [encode_append,encode] using size
    have positive := Char.utf8Size_pos c
    have member : byte ∈ String.utf8EncodeChar c := by
      have shape : encode (front.concat c ++ after) =
          encode front ++ (String.utf8EncodeChar c ++ encode after) := by
        simp [encode]
      rw [shape,List.getElem?_append_right (by omega),
        List.getElem?_append_left (by rw [String.length_utf8EncodeChar]; omega)] at read
      exact List.mem_of_getElem? read
    have single := utf8Size_of_ascii member ascii
    exact ⟨front,c :: after,by simp,by omega⟩

theorem boundary_before {text : List Char} {low high : Nat} (ordered : low ≤ high)
    (bound : IsBoundary text high)
    (ascii : ∀ i, low ≤ i → i < high → ∃ byte, (encode text)[i]? = some byte ∧ byte.toNat < 0x80) :
    IsBoundary text low := by
  induction ordered with
  | refl => exact bound
  | @step middle below ih =>
    obtain ⟨byte,read,small⟩ := ascii middle below (Nat.lt_succ_self _)
    exact ih (boundary_pred bound read small) fun i above under => ascii i above (by omega)

theorem boundary_after {text : List Char} {low high : Nat} (ordered : low ≤ high)
    (bound : IsBoundary text low)
    (ascii : ∀ i, low ≤ i → i < high → ∃ byte, (encode text)[i]? = some byte ∧ byte.toNat < 0x80) :
    IsBoundary text high := by
  induction ordered with
  | refl => exact bound
  | @step middle below ih =>
    obtain ⟨byte,read,small⟩ := ascii middle below (Nat.lt_succ_self _)
    exact boundary_succ (ih fun i above under => ascii i above (by omega)) read small

end SourceAtlas.Utf8
