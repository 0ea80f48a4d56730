import OpenFiat.CaseRecognition

/-!
# What the reader of case accounts accepts

The walk over the bytes of a case account is exact in both directions. On what the escrow
program writes it returns the outcome of the case. And when it returns a resolution, the buffer
begins with the discriminator and has room for every list at the length that it announces.
-/
namespace OpenFiat.OutcomeDecoding
open GuardedResult ProgramAddress EscrowAccounts TransactionRuns ChainSteps
open TradingNode WireBytes OnchainDispute CaseRecognition

variable {owner : String} {data rest : List UInt8} {r : Resolution}

/-- Items of one fixed size. -/
def Sized (size : ℕ) (items : List (List UInt8)) : Prop := ∀ item ∈ items, item.length = size

/-- Optional one-byte values: a tag, and a value after the tag `1`. -/
def Optional (items : List (List UInt8)) : Prop :=
  ∀ item ∈ items, (∃ tag, tag ≠ 1 ∧ item = [tag]) ∨ ∃ value, item = [1, value]

/-- The buffer is a case account up to and including a present outcome `raw`: the
discriminator, the fixed fields and the six lists, each of which has as many items as its length
word says. -/
def Consistent (data : List UInt8) (raw : UInt8) : Prop :=
  ∃ fixed arbitrators commitments revealed weights claims barred deposit rest,
    fixed.length = fixedPrefix ∧ Sized 32 arbitrators ∧ Sized 32 commitments ∧
    Optional revealed ∧ Sized 8 weights ∧ Sized 1 claims ∧ Sized 32 barred ∧
    deposit.length = 32 + 32 + 8 + 8 ∧
    data = disputeCaseDiscriminator ++ (fixed ++ (vec id arbitrators ++ (vec id commitments ++
      (vec id revealed ++ (vec id weights ++ (vec id claims ++ (vec id barred ++
        (deposit ++ (1 :: raw :: rest)))))))))

theorem take_ok {count : ℕ} {p : List UInt8 × List UInt8} (h : take count data = .ok p) :
    p.1.length = count ∧ data = p.1 ++ p.2 := by
  simp only [take, bind_ok, require_ok, pure_ok, exists_const, List.splitAt_eq] at h
  obtain ⟨hlen, rfl⟩ := h
  exact ⟨List.length_take_of_le hlen, (List.take_append_drop count data).symm⟩

theorem takeByte_ok {p : UInt8 × List UInt8} (h : takeByte data = .ok p) : data = p.1 :: p.2 := by
  simp only [takeByte, bind_ok, pure_ok] at h
  obtain ⟨q, hq, rfl⟩ := h
  obtain ⟨hlen, rfl⟩ := take_ok hq
  obtain ⟨b, hb⟩ := List.length_eq_one_iff.mp hlen
  rw [hb]
  rfl

theorem exists_items (size : ℕ) {count : ℕ} {bytes : List UInt8} (h : bytes.length = count * size) :
    ∃ items, items.length = count ∧ Sized size items ∧ items.flatMap id = bytes := by
  induction count generalizing bytes with
  | zero =>
    refine ⟨[], rfl, List.forall_mem_nil _, ?_⟩
    rw [Nat.zero_mul] at h
    exact (List.length_eq_zero_iff.mp h).symm
  | succ count ih =>
    have hdrop : (bytes.drop size).length = count * size := by
      rw [List.length_drop, h, Nat.succ_mul, Nat.add_sub_cancel]
    obtain ⟨items, hlen, hsized, hbytes⟩ := ih hdrop
    have htake : (bytes.take size).length = size :=
      List.length_take_of_le (h ▸ Nat.le_mul_of_pos_left size count.succ_pos)
    refine ⟨bytes.take size :: items, congrArg Nat.succ hlen, ?_, ?_⟩
    · exact List.forall_mem_cons.mpr ⟨htake, hsized⟩
    · rw [List.flatMap_cons, hbytes]
      exact List.take_append_drop size bytes

theorem vec_of_word {word : List UInt8} {items : List (List UInt8)} (hword : word.length = 4)
    (hlen : items.length = ofLittleEndian word) : word ++ items.flatMap id = vec id items := by
  rw [vec, hlen, ← hword, littleEndian_ofLittleEndian]

theorem skipVec_ok {size : ℕ} (h : skipVec size data = .ok rest) :
    ∃ items, Sized size items ∧ data = vec id items ++ rest := by
  simp only [skipVec, bind_ok, require_ok, pure_ok, exists_const] at h
  obtain ⟨word, hword, -, body, hbody, rfl⟩ := h
  obtain ⟨hwordLen, rfl⟩ := take_ok hword
  obtain ⟨hbodyLen, hdata⟩ := take_ok hbody
  obtain ⟨items, hlen, hsized, hitems⟩ := exists_items size hbodyLen
  refine ⟨items, hsized, ?_⟩
  rw [hdata, ← hitems, ← List.append_assoc, vec_of_word hwordLen hlen]

theorem skipOptions_ok {count : ℕ} (h : skipOptions count data = .ok rest) :
    ∃ items, items.length = count ∧ Optional items ∧ data = items.flatMap id ++ rest := by
  induction count generalizing data with
  | zero =>
    rw [skipOptions, Except.ok.injEq] at h
    exact ⟨[], rfl, List.forall_mem_nil _, h⟩
  | succ count ih =>
    simp only [skipOptions, bind_ok] at h
    obtain ⟨tag, htag, h⟩ := h
    obtain rfl := takeByte_ok htag
    split_ifs at h with hpresent
    · simp only [bind_ok] at h
      obtain ⟨value, hvalue, h⟩ := h
      obtain ⟨hlen, hdata⟩ := take_ok hvalue
      obtain ⟨v, hv⟩ := List.length_eq_one_iff.mp hlen
      obtain ⟨items, hcount, hoptional, hitems⟩ := ih h
      refine ⟨[1, v] :: items, congrArg Nat.succ hcount, ?_, ?_⟩
      · exact List.forall_mem_cons.mpr ⟨.inr ⟨v, rfl⟩, hoptional⟩
      · rw [hdata, hv, hitems, hpresent]
        rfl
    · obtain ⟨items, hcount, hoptional, hitems⟩ := ih h
      refine ⟨[tag.1] :: items, congrArg Nat.succ hcount, ?_, ?_⟩
      · exact List.forall_mem_cons.mpr ⟨.inl ⟨tag.1, hpresent, rfl⟩, hoptional⟩
      · rw [hitems]
        rfl

theorem skipOptionVec_ok (h : skipOptionVec data = .ok rest) :
    ∃ items, Optional items ∧ data = vec id items ++ rest := by
  simp only [skipOptionVec, bind_ok] at h
  obtain ⟨word, hword, h⟩ := h
  obtain ⟨hwordLen, rfl⟩ := take_ok hword
  obtain ⟨items, hlen, hoptional, hitems⟩ := skipOptions_ok h
  refine ⟨items, hoptional, ?_⟩
  rw [hitems, ← List.append_assoc, vec_of_word hwordLen hlen]

/-- A resolution comes from a consistent buffer that is owned by the escrow program, and is the
one that its outcome stands for. -/
theorem consistent_of_decodeOutcome (h : decodeOutcome owner data = .ok (some r)) :
    owner = escrowProgramId ∧
      ∃ raw, Consistent data raw ∧ resolutionFromDiscriminant raw = .ok r := by
  simp only [decodeOutcome, bind_ok, require_ok, exists_const] at h
  obtain ⟨howner, disc, hdisc, hmatch, fixed, hfixed, d₁, h₁, d₂, h₂, d₃, h₃, d₄, h₄, d₅, h₅, d₆,
    h₆, deposit, hdeposit, tag, htag, h⟩ := h
  split_ifs at h with hnone hsome
  · cases h
  simp only [bind_ok, pure_ok, Option.some.injEq] at h
  obtain ⟨raw, hraw, _, hresolution, rfl⟩ := h
  obtain ⟨arbitrators, hs₁, hd₁⟩ := skipVec_ok h₁
  obtain ⟨commitments, hs₂, rfl⟩ := skipVec_ok h₂
  obtain ⟨revealed, hs₃, rfl⟩ := skipOptionVec_ok h₃
  obtain ⟨weights, hs₄, rfl⟩ := skipVec_ok h₄
  obtain ⟨claims, hs₅, rfl⟩ := skipVec_ok h₅
  obtain ⟨barred, hs₆, rfl⟩ := skipVec_ok h₆
  obtain ⟨hdepositLen, rfl⟩ := take_ok hdeposit
  have htagged := takeByte_ok htag
  have hvalued := takeByte_ok hraw
  obtain ⟨-, rfl⟩ := take_ok hdisc
  obtain ⟨hfixedLen, hfields⟩ := take_ok hfixed
  refine ⟨howner, raw.1, ⟨fixed.1, arbitrators, commitments, revealed, weights, claims, barred,
    deposit.1, raw.2, hfixedLen, hs₁, hs₂, hs₃, hs₄, hs₅, hs₆, hdepositLen, ?_⟩, hresolution⟩
  rw [hfields, hd₁, htagged, hvalued, hmatch, hsome]

/-- On the account of a case, with any bytes after it, the reader returns the case's outcome as a
resolution; an agreement of the parties is no ruling and yields an error. On any other bytes it
returns a resolution only if they are laid out like a case. -/
theorem outcome_decoding (P : Platform) (hkeys : ∀ k, (P.keyBytes k).length = 32) (bump : UInt8)
    (c : DisputeCase) (hc : ListsFit c) (trailing : List UInt8) :
    decodeOutcome escrowProgramId (caseBytes P bump c ++ trailing) = reading c.outcome ∧
      ∀ owner data r, decodeOutcome owner data = .ok (some r) →
        owner = escrowProgramId ∧
          ∃ raw, Consistent data raw ∧ resolutionFromDiscriminant raw = .ok r :=
  ⟨decodeOutcome_caseBytes hkeys bump hc trailing, fun _ _ _ => consistent_of_decodeOutcome⟩

/-- Three votes for the buyer, in an account with some zero bytes left over. -/
theorem outcome_decoding_buyer :
    ∃ c, (run (ChainSteps.step accountPlatform) emptyChain
        (buyerVerdict [30, 31, 32])).disputeCases.lookup 7 = some c ∧
      decodeOutcome escrowProgramId (caseBytes accountPlatform 254 c ++ [0, 0, 0]) =
        .ok (some .buyerWins) := by
  have hcase : ((run (ChainSteps.step accountPlatform) emptyChain
      (buyerVerdict [30, 31, 32])).disputeCases.lookup 7).map (·.outcome) =
        some (some .buyerWins) := by
    decide +kernel
  obtain ⟨c, hc, houtcome⟩ := Option.map_eq_some_iff.mp hcase
  have hfit := (run_docketed genesis_emptyChain _ hc).listsFit
  refine ⟨c, hc, ?_⟩
  rw [(outcome_decoding accountPlatform length_keyBytes_accountPlatform 254 c hfit [0, 0, 0]).1,
    houtcome]
  rfl

/-- A case that the program decided as an agreement of the parties yields no resolution. -/
theorem agreement_yields_no_resolution :
    ((run (ChainSteps.step accountPlatform) emptyChain
        (agreementVerdict [30, 31, 32])).disputeCases.lookup 7).map (fun c =>
      (c.outcome, decodeOutcome escrowProgramId (caseBytes accountPlatform 254 c ++ [0, 0, 0]))) =
    some (some .mutualSettlement, .error (.invalidParams
      "the chain settled this case by mutual agreement, which is not an arbitrator ruling")) := by
  decide +kernel

end OpenFiat.OutcomeDecoding
