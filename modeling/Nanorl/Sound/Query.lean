import Nanorl.Sound.Echo

/-!
# Nanorl.Sound.Query

A query of the cursor's position: the request that goes out (`SendsRequest`), the rounds
in which the response comes in (`readResponse_round`), and what is made of it
(`positionOf`).
-/

namespace Nanorl

section Query

variable {P : Platform} {t : Terminfo} {io : Io}

/-! ### The request -/

/-- The request has gone out, and `io'` waits for the answer. -/
def SendsRequest (P : Platform) (t : Terminfo) (io io' : Io) : Prop :=
  ∃ request io₁, nrlLookupSpecial t TerminfoSpecial.user7.id = some request ∧
    nrlIoWrite P request io = .ok (true, io₁) ∧ nrlIoFlush P io₁ = .ok (true, io')

theorem SendsRequest.queryCursor_eq {io io' : Io} (h : SendsRequest P t io io') :
    queryCursor P t io = receiveReport P t io' := by
  obtain ⟨request, io₁, huser7, hwrite, hflush⟩ := h
  unfold queryCursor
  rw [huser7]
  dsimp only
  rw [hwrite, Run.ok_bind]
  dsimp only
  rw [if_neg (by decide), hflush, Run.ok_bind]
  rfl

theorem sendsRequest {io : Io} {request : List Byte}
    (huser7 : nrlLookupSpecial t TerminfoSpecial.user7.id = some request) (h : io.Echoing)
    (hzero : io.wrCount = 0) : ∃ io', SendsRequest P t io io' ∧ io.Sends request io' := by
  obtain ⟨io₁, hwrite, hsends⟩ : ∃ io', nrlIoWrite P request io = .ok (true, io') ∧
      io.Sends request io' := nrlIoWrite_sends P h (.inl hzero)
  obtain ⟨io₂, hflush, hsends₂, -⟩ := nrlIoFlush_sends P (hsends.echoing h)
  have hall := hsends.trans hsends₂
  rw [List.append_nil] at hall
  exact ⟨io₂, ⟨request, io₁, huser7, hwrite, hflush⟩, hall⟩

/-! ### The response -/

theorem nrlIoRawRead_eq {io : Io} (hfile : io.readFile ≠ -1) {count : Nat} (hcount : 0 < count) :
    nrlIoRawRead P count io = .ok ((io.world.read count).1, { io with world := (io.world.read count).2 }) := by
  unfold nrlIoRawRead
  rw [P.assert_of _ (decide_eq_true hfile), Run.ok_bind, P.assert_of _ (decide_eq_true hcount)]
  rfl

theorem World.read_whole {w : World} {bytes : List Byte} {reads : List ReadResult}
    (hreads : w.reads = .data bytes :: reads) {count : Nat} (h : bytes.length ≤ count) :
    w.read count = (some bytes, { w with reads }) := by
  unfold World.read
  rw [hreads]
  dsimp only
  rw [List.take_of_length_le h, if_pos h]

/-- One round of the loop. -/
theorem readResponse_round (hfile : io.readFile ≠ -1) {received bytes : List Byte} {world : World}
    (hread : io.world.read cprResBufSize = (some bytes, world)) (lastChar : Byte) (fuel : Nat) :
    readResponse P lastChar (fuel + 1) received io =
      if received ++ bytes = [] ∨ cprResBufSize < (received ++ bytes).length then .error .outOfBounds
      else if (received ++ bytes).getLast? = some lastChar then
        .ok (some (received ++ bytes), { io with world })
      else readResponse P lastChar fuel (received ++ bytes) { io with world } := by
  rw [readResponse, nrlIoRawRead_eq hfile (by decide), hread, Run.ok_bind]
  dsimp only
  generalize received ++ bytes = response
  by_cases hroom : cprResBufSize < response.length
  · rw [if_pos hroom, if_pos (.inr hroom)]
    rfl
  · rw [if_neg hroom]
    cases hlast : response.getLast? with
    | none =>
      rw [if_pos (.inl (List.getLast?_eq_none_iff.mp hlast))]
      rfl
    | some last =>
      have hne : response ≠ [] := by
        rintro rfl
        cases hlast
      rw [if_neg (not_or.mpr ⟨hne, hroom⟩)]
      dsimp only
      by_cases hawaited : last = lastChar
      · rw [if_pos hawaited, if_pos (congrArg some hawaited)]
        rfl
      · rw [if_neg hawaited, if_neg (fun h => hawaited (Option.some.inj h))]

/-- A response that comes in one piece. -/
theorem readResponse_whole {lastChar : Byte} (hfile : io.readFile ≠ -1)
    {response : List Byte} {reads : List ReadResult} (hreads : io.world.reads = .data response :: reads)
    (hlast : response.getLast? = some lastChar) (hroom : response.length ≤ cprResBufSize) (fuel : Nat) :
    readResponse P lastChar (fuel + 1) [] io =
      .ok (some response, { io with world := { io.world with reads } }) := by
  have hne : response ≠ [] := by
    rintro rfl
    cases hlast
  rw [readResponse_round hfile (World.read_whole hreads hroom), List.nil_append,
    if_neg (not_or.mpr ⟨hne, Nat.not_lt.mpr hroom⟩), if_pos hlast]

/-- A response ends in the awaited character. -/
theorem readResponse_last {lastChar : Byte} {fuel : Nat} {resBuf response : List Byte} {io io' : Io}
    (h : readResponse P lastChar fuel resBuf io = .ok (some response, io')) :
    response.length ≤ cprResBufSize ∧ response.getLast? = some lastChar := by
  induction fuel generalizing resBuf io with
  | zero => cases h
  | succ fuel ih =>
    rw [readResponse] at h
    obtain ⟨⟨bytes, io₁⟩, -, h⟩ := Run.bind_eq_ok.mp h
    cases bytes with
    | none => cases h
    | some bytes =>
      dsimp only at h
      split at h
      · cases h
      · rename_i hlength
        split at h
        · cases h
        · rename_i last hlast
          split at h
          · rename_i hawaited
            obtain ⟨hresponse, -⟩ := Prod.mk.inj (Except.ok.inj h)
            obtain rfl := Option.some.inj hresponse
            exact ⟨Nat.le_of_not_lt hlength, hlast.trans (congrArg some hawaited)⟩
          · exact ih h

/-! ### The position -/

theorem readTarget_ok {target : Option Int} {n : Int} : readTarget target = .ok n ↔ target = some n := by
  cases target <;> simp [readTarget]

theorem readTarget_uninitialised {target : Option Int} :
    readTarget target = .error .uninitialised ↔ target = none := by
  cases target <;> simp [readTarget]

/-- A number that is not negative, or an assert that is not there. -/
theorem assert_nonneg {a : Assertion} {n : Int} :
    P.assert a (n ≥ 0) = .ok () ↔ P.ndebug = true ∨ 0 ≤ n := by
  rw [Platform.assert_ok, decide_eq_true_iff]
  exact or_comm

theorem positionOf_ok {format response : List Byte} {position : Pos2d} :
    positionOf P format response = .ok position ↔ response.length ≠ cprResBufSize ∧
      ∃ res rowBuf colBuf,
        nrlTerminfoStringParse2 format (cstr response) none none = .ok (res, some rowBuf, some colBuf) ∧
        (P.ndebug = true ∨ 0 ≤ rowBuf ∧ 0 ≤ colBuf) ∧
        position = { row := uint32 rowBuf, col := uint32 colBuf } := by
  unfold positionOf
  constructor
  · intro h
    obtain ⟨_, -, h⟩ := Run.bind_eq_ok.mp h
    split at h
    · cases h
    · rename_i hsize
      obtain ⟨⟨res, rowTarget, colTarget⟩, hparsed, h⟩ := Run.bind_eq_ok.mp h
      obtain ⟨rowBuf, hrowBuf, h⟩ := Run.bind_eq_ok.mp h
      obtain ⟨_, hrow, h⟩ := Run.bind_eq_ok.mp h
      obtain ⟨colBuf, hcolBuf, h⟩ := Run.bind_eq_ok.mp h
      obtain ⟨_, hcol, hposition⟩ := Run.bind_eq_ok.mp h
      obtain rfl := readTarget_ok.mp hrowBuf
      obtain rfl := readTarget_ok.mp hcolBuf
      refine ⟨hsize, res, rowBuf, colBuf, hparsed, ?_, (Except.ok.inj hposition).symm⟩
      have hrow := assert_nonneg.mp hrow
      have hcol := assert_nonneg.mp hcol
      tauto
  · rintro ⟨hsize, res, rowBuf, colBuf, hparsed, hsigns, rfl⟩
    rw [P.assert_of _ (decide_eq_true hsize), Run.ok_bind, if_neg hsize, hparsed, Run.ok_bind]
    dsimp only
    rw [readTarget_ok.mpr rfl, Run.ok_bind, assert_nonneg.mpr (hsigns.imp_right And.left), Run.ok_bind,
      readTarget_ok.mpr rfl, Run.ok_bind, assert_nonneg.mpr (hsigns.imp_right And.right)]
    rfl

/-- A target that is not set is used unless an assert on the row has ended the run before. -/
theorem positionOf_uninitialised {format response : List Byte} :
    positionOf P format response = .error .uninitialised ↔ response.length ≠ cprResBufSize ∧
      (nrlTerminfoStringParse2 format (cstr response) none none = .error .uninitialised ∨
        ∃ res rowTarget colTarget,
          nrlTerminfoStringParse2 format (cstr response) none none = .ok (res, rowTarget, colTarget) ∧
          (rowTarget = none ∨
            ∃ rowBuf, rowTarget = some rowBuf ∧ colTarget = none ∧ (P.ndebug = true ∨ 0 ≤ rowBuf))) := by
  have hassert : ∀ (a : Assertion) (b : Bool), P.assert a b ≠ .error .uninitialised :=
    fun a b h => nomatch P.assert_error h
  unfold positionOf
  constructor
  · intro h
    rcases Run.bind_eq_error.mp h with h | ⟨_, -, h⟩
    · exact absurd h (hassert _ _)
    · split at h
      · cases h
      · rename_i hsize
        refine ⟨hsize, ?_⟩
        rcases Run.bind_eq_error.mp h with h | ⟨⟨res, rowTarget, colTarget⟩, hparsed, h⟩
        · exact .inl h
        · refine .inr ⟨res, rowTarget, colTarget, hparsed, ?_⟩
          rcases Run.bind_eq_error.mp h with h | ⟨rowBuf, hrowBuf, h⟩
          · exact .inl (readTarget_uninitialised.mp h)
          · rcases Run.bind_eq_error.mp h with h | ⟨_, hrow, h⟩
            · exact absurd h (hassert _ _)
            · rcases Run.bind_eq_error.mp h with h | ⟨colBuf, -, h⟩
              · exact .inr ⟨rowBuf, readTarget_ok.mp hrowBuf, readTarget_uninitialised.mp h,
                  assert_nonneg.mp hrow⟩
              · rcases Run.bind_eq_error.mp h with h | ⟨_, -, h⟩
                · exact absurd h (hassert _ _)
                · cases h
  · rintro ⟨hsize, hparsed⟩
    rw [P.assert_of _ (decide_eq_true hsize), Run.ok_bind, if_neg hsize]
    rcases hparsed with hparsed | ⟨res, rowTarget, colTarget, hparsed, rfl | ⟨rowBuf, rfl, rfl, hrow⟩⟩
    · rw [hparsed]
      rfl
    · rw [hparsed]
      rfl
    · rw [hparsed, Run.ok_bind]
      dsimp only
      rw [readTarget_ok.mpr rfl, Run.ok_bind, assert_nonneg.mpr hrow]
      rfl

/-- The loop, and what comes behind it. -/
theorem receiveReport_eq {format : List Byte} {lastChar : Byte}
    (huser6 : nrlLookupSpecial t TerminfoSpecial.user6.id = some format)
    (hlast : format.getLast? = some lastChar) :
    receiveReport P t io = readResponse P lastChar (io.world.pendingReads + 2) [] io >>= fun r =>
      match r with
      | (none, io) => .ok (none, io)
      | (some response, io) =>
        (positionOf P format response).map fun position => (some position, io) := by
  unfold receiveReport
  rw [huser6]
  dsimp only
  rw [hlast]
  rfl

end Query

end Nanorl
