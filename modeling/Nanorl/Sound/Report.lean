import Nanorl.Sound.Capability

/-!
# Nanorl.Sound.Report

The loop of `query_cursor` that collects a cursor position report.

Every round asks for a whole buffer's worth behind what is already there, and only a
failed read or the awaited last character ends the loop. So the buffer is large enough
for one round only (`reportBuffer_iff`), and without more input the loop goes on for
ever: it ends exactly if the reads reach a failure or a report (`Replied`,
`queryCursor_returns_iff`).
-/

namespace Nanorl

/-! ### The buffer -/

section Buffer

variable (P : Platform) (lastChar : Byte)

/-- The states at the head of the loop, in any number of rounds. -/
inductive LoopHead (io₀ : Io) : List Byte → Io → Prop
  | start : LoopHead io₀ [] io₀
  | again {resBuf bytes : List Byte} {io io' : Io} (head : LoopHead io₀ resBuf io)
      (read : nrlIoRawRead P cprResBufSize io = .ok (some bytes, io'))
      (goes : (resBuf ++ bytes).getLast? ≠ some lastChar) : LoopHead io₀ (resBuf ++ bytes) io'

/-- A round stays inside the buffer: the bytes it asks for have room, a byte is there to
be tested, and the terminator behind the last round has room unless an assert ends the
process before it is written. -/
structure InsideBuffer (resBuf : List Byte) (io : Io) : Prop where
  requested : resBuf.length + cprResBufSize ≤ cprResBufSize
  tested : ∀ bytes io', nrlIoRawRead P cprResBufSize io = .ok (some bytes, io') →
    0 < (resBuf ++ bytes).length
  terminated : ∀ bytes io', nrlIoRawRead P cprResBufSize io = .ok (some bytes, io') →
    (resBuf ++ bytes).getLast? = some lastChar →
    P.assert .reportSize ((resBuf ++ bytes).length ≠ cprResBufSize) = .ok () →
    (resBuf ++ bytes).length < cprResBufSize

variable {P lastChar} {io : Io}

theorem World.read_length_le {w : World} {count : Nat} {bytes : List Byte}
    (h : (w.read count).1 = some bytes) : bytes.length ≤ count := by
  unfold World.read at h
  split at h
  · obtain rfl := Option.some.inj h
    exact Nat.zero_le _
  · cases h
  · obtain rfl := Option.some.inj h
    exact List.length_take_le _ _

end Buffer

/-- **The buffer of the report.** No round of the loop leaves the buffer exactly if the
first read fails, or delivers a whole report: bytes that end in the awaited character
and, without asserts, leave room for a terminator. -/
theorem reportBuffer_iff {P : Platform} {lastChar : Byte} {io : Io} (hfile : io.readFile ≠ -1) :
    (∀ resBuf io', LoopHead P lastChar io resBuf io' → InsideBuffer P lastChar resBuf io') ↔
      ∀ bytes, (io.world.read cprResBufSize).1 = some bytes →
        bytes.getLast? = some lastChar ∧ (P.ndebug = true → bytes.length < cprResBufSize) := by
  have hread := nrlIoRawRead_eq (P := P) hfile (by decide : 0 < cprResBufSize)
  constructor
  · intro hinside bytes hbytes
    rw [hbytes] at hread
    have hround := hinside [] io .start
    have hlast : bytes.getLast? = some lastChar := by
      by_contra hne
      -- another round starts behind what the first one has read
      have hnext := (hinside _ _ (.again .start hread hne)).requested
      have htested := hround.tested bytes _ hread
      omega
    exact ⟨hlast, fun hndebug => hround.terminated bytes _ hread hlast
      (Platform.assert_ok.mpr (.inr hndebug))⟩
  · intro hfirst
    have honly : ∀ resBuf io', LoopHead P lastChar io resBuf io' → resBuf = [] ∧ io' = io := by
      intro resBuf io' hhead
      induction hhead with
      | start => exact ⟨rfl, rfl⟩
      | again _ hagain hgoes ih =>
        obtain ⟨rfl, rfl⟩ := ih
        rw [hread] at hagain
        obtain ⟨hbytes, -⟩ := Prod.mk.inj (Except.ok.inj hagain)
        exact absurd (hfirst _ hbytes).1 hgoes
    intro resBuf io' hhead
    obtain ⟨rfl, rfl⟩ := honly resBuf io' hhead
    have hbytes : ∀ bytes io'', nrlIoRawRead P cprResBufSize io' = .ok (some bytes, io'') →
        (io'.world.read cprResBufSize).1 = some bytes := by
      intro bytes io'' h
      rw [hread] at h
      exact (Prod.mk.inj (Except.ok.inj h)).1
    refine ⟨Nat.le_of_eq (Nat.zero_add _), fun bytes io'' h => ?_, fun bytes io'' h hlast hassert => ?_⟩
    · have hne : bytes ≠ [] := by
        rintro rfl
        cases (hfirst _ (hbytes _ _ h)).1
      exact List.length_pos_iff.mpr hne
    · obtain ⟨-, hroom⟩ := hfirst _ (hbytes _ _ h)
      rcases Platform.assert_ok.mp hassert with hne | hndebug
      · exact Nat.lt_of_le_of_ne (World.read_length_le (hbytes _ _ h)) (of_decide_eq_true hne)
      · exact hroom hndebug

/-- A report that comes in one piece. -/
theorem reportBuffer_whole :
    InsideBuffer referencePlatform 82 [] (repliesScreen [.data (ascii "\x1b[2;1R")]).io := by
  refine (reportBuffer_iff (by decide)).mpr (fun bytes hbytes => ?_) _ _ .start
  obtain rfl : ascii "\x1b[2;1R" = bytes := Option.some.inj hbytes
  exact ⟨by decide, fun h => absurd h Bool.false_ne_true⟩

/-- Of a report in two pieces, the second is read behind the first. -/
theorem reportBuffer_pieces : ¬ ∀ resBuf io,
    LoopHead referencePlatform 82
      (repliesScreen [.data (ascii "\x1b[2"), .data (ascii ";1R")]).io resBuf io →
    InsideBuffer referencePlatform 82 resBuf io := by
  intro hinside
  have hround := hinside _ _ (.again .start (nrlIoRawRead_eq (by decide) (by decide)) (by decide))
  exact absurd hround.requested (by decide)

/-! ### The end of the loop -/

/-- The reads come to an end of the loop: to a failure, or to a response that is
`usable`, with a byte in the buffer after every read and no more than have room. -/
def Replied (lastChar : Byte) (usable : List Byte → Prop) : List Byte → List ReadResult → Prop
  | _, [] => False
  | _, .failed _ :: _ => True
  | received, .data bytes :: reads =>
    received ++ bytes ≠ [] ∧ (received ++ bytes).length ≤ cprResBufSize ∧
      if (received ++ bytes).getLast? = some lastChar then usable (received ++ bytes)
      else Replied lastChar usable (received ++ bytes) reads

/-- The function gets to its end with this response: there is room for the terminator,
the format is read to its end, and the asserts on the two numbers hold or are compiled out. -/
def Survives (P : Platform) (format response : List Byte) : Prop :=
  response.length < cprResBufSize ∧
    match nrlTerminfoStringParse2 format (cstr response) none none with
    | .ok (_, some rowBuf, some colBuf) => P.ndebug = true ∨ 0 ≤ rowBuf ∧ 0 ≤ colBuf
    | .ok _ | .error .uninitialised => P.ndebug = true
    | .error _ => False

section Return

variable {P : Platform} {lastChar : Byte} {usable : List Byte → Prop}

/-- Reads that come to an end end the loop, each in a round of its own. -/
theorem Replied.readResponse {received : List Byte} {reads : List ReadResult}
    (h : Replied lastChar usable received reads) {io : Io} (hfile : io.readFile ≠ -1)
    (hreads : io.world.reads = reads) {fuel : Nat} (hfuel : reads.length < fuel) :
    ∃ response io', readResponse P lastChar fuel received io = .ok (response, io') ∧
      ∀ bytes, response = some bytes → usable bytes := by
  induction reads generalizing received io fuel with
  | nil => exact h.elim
  | cons result reads ih =>
    obtain ⟨fuel, rfl⟩ := Nat.exists_eq_succ_of_ne_zero (by omega : fuel ≠ 0)
    cases result with
    | failed errno =>
      rw [Nanorl.readResponse, nrlIoRawRead_eq hfile (by decide), World.read, hreads]
      exact ⟨none, _, rfl, by simp⟩
    | data bytes =>
      obtain ⟨hne, hlength, hrest⟩ := h
      have hbytes : bytes.length ≤ cprResBufSize := by
        rw [List.length_append] at hlength
        omega
      rw [readResponse_round hfile (World.read_whole hreads hbytes),
        if_neg (not_or.mpr ⟨hne, Nat.not_lt.mpr hlength⟩)]
      split
      · rename_i hlast
        rw [if_pos hlast] at hrest
        refine ⟨_, _, rfl, fun response hresponse => ?_⟩
        obtain rfl := Option.some.inj hresponse
        exact hrest
      · rename_i hgoes
        rw [if_neg hgoes] at hrest
        refine ih hrest ?_ rfl (Nat.lt_of_succ_lt_succ hfuel)
        exact hfile

/-- At the end of file the buffer stays as it is, and so does the loop. -/
theorem readResponse_eof {io : Io} (hfile : io.readFile ≠ -1) (hreads : io.world.reads = [])
    {received : List Byte} (hgoes : received.getLast? ≠ some lastChar) (fuel : Nat)
    (r : Option (List Byte) × Io) : readResponse P lastChar fuel received io ≠ .ok r := by
  induction fuel with
  | zero => simp [Nanorl.readResponse]
  | succ fuel ih =>
    have hread : io.world.read cprResBufSize = (some [], io.world) := by
      rw [World.read, hreads]
    rw [readResponse_round hfile hread, List.append_nil, if_neg hgoes]
    split
    · simp
    · exact ih

/-- A read that fills the buffer leaves no room for the terminator or the next byte. -/
theorem readResponse_fits {fuel : Nat} {received bytes : List Byte} {reads : List ReadResult}
    {io io' : Io} {response : Option (List Byte)} (hfile : io.readFile ≠ -1)
    (hreads : io.world.reads = .data bytes :: reads)
    (h : Nanorl.readResponse P lastChar fuel received io = .ok (response, io'))
    (hroom : ∀ bytes, response = some bytes → bytes.length < cprResBufSize) :
    bytes.length ≤ cprResBufSize := by
  by_contra hlong
  have hread : ∀ (w : World) (bytes : List Byte), w.reads = .data bytes :: reads →
      ∃ w', w.read cprResBufSize = (some (bytes.take cprResBufSize), w') ∧
        (¬ bytes.length ≤ cprResBufSize → w'.reads = .data (bytes.drop cprResBufSize) :: reads) := by
    intro w bytes hw
    unfold World.read
    rw [hw]
    exact ⟨_, rfl, fun hlong => if_neg hlong⟩
  obtain ⟨w, hfirst, hw⟩ := hread io.world bytes hreads
  cases fuel with
  | zero => cases h
  | succ fuel =>
    rw [readResponse_round hfile hfirst] at h
    split at h
    · cases h
    · split at h
      · obtain ⟨rfl, -⟩ := Prod.mk.inj (Except.ok.inj h)
        have hshort := hroom _ rfl
        rw [List.length_append, List.length_take] at hshort
        omega
      · cases fuel with
        | zero => cases h
        | succ fuel =>
          obtain ⟨w', hsecond, -⟩ := hread w _ (hw hlong)
          have hfull : cprResBufSize <
              (received ++ bytes.take cprResBufSize ++ (bytes.drop cprResBufSize).take cprResBufSize).length := by
            have hpos : 0 < cprResBufSize := by decide
            simp only [List.length_append, List.length_take, List.length_drop]
            omega
          rw [readResponse_round (by exact hfile) hsecond, if_pos (.inr hfull)] at h
          cases h

/-- A loop that ends has met a failure or a response. Every read before that has put a
byte into the buffer, and no more than have room. -/
theorem Replied.of_readResponse {fuel : Nat} {received : List Byte} {io io' : Io}
    {response : Option (List Byte)} (hfile : io.readFile ≠ -1)
    (hgoes : received.getLast? ≠ some lastChar)
    (h : Nanorl.readResponse P lastChar fuel received io = .ok (response, io'))
    (husable : ∀ bytes, response = some bytes → usable bytes ∧ bytes.length < cprResBufSize) :
    Replied lastChar usable received io.world.reads := by
  induction fuel generalizing received io with
  | zero => cases h
  | succ fuel ih =>
    cases hreads : io.world.reads with
    | nil =>
      exact absurd h (readResponse_eof hfile hreads hgoes _ _)
    | cons result reads =>
      cases result with
      | failed errno => trivial
      | data bytes =>
        have hbytes := readResponse_fits hfile hreads h fun response hresponse => (husable response hresponse).2
        rw [readResponse_round hfile (World.read_whole hreads hbytes)] at h
        split at h
        · cases h
        · rename_i hroom
          obtain ⟨hne, hlength⟩ := not_or.mp hroom
          refine ⟨hne, Nat.le_of_not_lt hlength, ?_⟩
          split at h
          · rename_i hlast
            rw [if_pos hlast]
            obtain ⟨rfl, -⟩ := Prod.mk.inj (Except.ok.inj h)
            exact (husable _ rfl).1
          · rename_i hgoes'
            rw [if_neg hgoes']
            refine ih ?_ hgoes' h
            exact hfile

/-- Every read that is still to come counts. -/
theorem World.length_le_pendingReads (w : World) : w.reads.length ≤ w.pendingReads := by
  unfold World.pendingReads
  induction w.reads with
  | nil => exact Nat.le_refl _
  | cons result reads ih =>
    rw [List.map_cons, List.sum_cons, List.length_cons]
    cases result <;> dsimp only <;> omega

/-- The loop itself depends on nothing that is not set. -/
theorem readResponse_initialised {io : Io} (hfile : io.readFile ≠ -1) (received : List Byte)
    (fuel : Nat) : readResponse P lastChar fuel received io ≠ .error .uninitialised := by
  induction fuel generalizing received io with
  | zero => simp [Nanorl.readResponse]
  | succ fuel ih =>
    cases hbytes : (io.world.read cprResBufSize).1 with
    | none =>
      rw [readResponse, nrlIoRawRead_eq hfile (by decide), hbytes]
      simp
    | some bytes =>
      rw [readResponse_round hfile (Prod.ext hbytes rfl)]
      split
      · simp
      · split
        · simp
        · refine ih ?_ _
          exact hfile

/-- The function gets to its end with the responses it survives. -/
theorem positionOf_survives {format response : List Byte} (hlength : response.length ≤ cprResBufSize) :
    ((∃ position, positionOf P format response = .ok position) ∨
        P.ndebug = true ∧ positionOf P format response = .error .uninitialised) ↔
      Survives P format response := by
  rw [positionOf_uninitialised]
  simp only [positionOf_ok]
  unfold Survives
  have hroom : response.length ≠ cprResBufSize ↔ response.length < cprResBufSize := by omega
  rw [hroom]
  cases nrlTerminfoStringParse2 format (cstr response) none none with
  | error fault => cases fault <;> simp [and_comm]
  | ok parsed =>
    obtain ⟨res, _ | rowBuf, _ | colBuf⟩ := parsed <;> simp +contextual [and_comm]

end Return

/-- **The end of the loop.** `query_cursor`, once its request has gone out, ends its loop
and returns exactly if the reads come to a failure, or to a response it can use. -/
theorem queryCursor_returns_iff {P : Platform} {t : Terminfo} {io io' : Io} {format : List Byte}
    {lastChar : Byte} (hsends : SendsRequest P t io io') (hfile : io'.readFile ≠ -1)
    (huser6 : nrlLookupSpecial t TerminfoSpecial.user6.id = some format)
    (hlast : format.getLast? = some lastChar) :
    ((∃ fuel r, readResponse P lastChar fuel [] io' = .ok r) ∧
        ((∃ r, queryCursor P t io = .ok r) ∨
          P.ndebug = true ∧ queryCursor P t io = .error .uninitialised)) ↔
      Replied lastChar (Survives P format) [] io'.world.reads := by
  rw [hsends.queryCursor_eq, receiveReport_eq huser6 hlast]
  have hends : ∀ (response : List Byte) (io : Io), response.length ≤ cprResBufSize →
      (((∃ r, (positionOf P format response).map (fun position => (some position, io)) = .ok r) ∨
        P.ndebug = true ∧ (positionOf P format response).map (fun position => (some position, io)) =
          .error .uninitialised) ↔ Survives P format response) := by
    intro response io hlength
    rw [← positionOf_survives hlength]
    cases positionOf P format response <;> simp [Except.map]
  constructor
  · rintro ⟨-, hreturns⟩
    cases hloop : readResponse P lastChar (io'.world.pendingReads + 2) [] io' with
    | error fault =>
      rw [hloop] at hreturns
      rcases hreturns with ⟨_, hok⟩ | ⟨-, herror⟩
      · cases hok
      · obtain rfl := Except.error.inj herror
        exact absurd hloop (readResponse_initialised hfile _ _)
    | ok r =>
      obtain ⟨response, io₁⟩ := r
      refine Replied.of_readResponse hfile nofun hloop fun bytes hresponse => ?_
      subst hresponse
      obtain ⟨hlength, -⟩ := readResponse_last hloop
      rw [hloop, Run.ok_bind] at hreturns
      have hsurvives := (hends bytes io₁ hlength).mp hreturns
      exact ⟨hsurvives, hsurvives.1⟩
  · intro hreplied
    obtain ⟨response, io₁, hloop, husable⟩ := hreplied.readResponse hfile rfl
      (show io'.world.reads.length < io'.world.pendingReads + 2 by
        have := World.length_le_pendingReads io'.world
        omega)
    refine ⟨⟨_, _, hloop⟩, ?_⟩
    rw [hloop, Run.ok_bind]
    cases response with
    | none => exact .inl ⟨_, rfl⟩
    | some response =>
      have hsurvives := husable response rfl
      exact (hends response io₁ hsurvives.1.le).mpr hsurvives

theorem xterm_user7 : nrlLookupSpecial xtermTerminfo TerminfoSpecial.user7.id =
    some (ascii "\x1b[6n") := by
  decide

theorem xterm_user6 : nrlLookupSpecial xtermTerminfo TerminfoSpecial.user6.id =
    some (ascii "\x1b[%i%d;%dR") := by
  decide

/-- An xterm has been asked, and these replies can be read. -/
theorem repliesScreen_sends (reads : List ReadResult) : ∃ io',
    SendsRequest referencePlatform xtermTerminfo (repliesScreen reads).io io' ∧
      io'.readFile ≠ -1 ∧ io'.world.reads = reads := by
  obtain ⟨io', hsends, hall⟩ := sendsRequest (P := referencePlatform) xterm_user7
    (repliesScreen_echoing reads) rfl
  obtain ⟨_, _, _, _, hsame⟩ := hall.same
  refine ⟨io', hsends, ?_, ?_⟩ <;> rw [hsame]
  · exact (by decide : (0 : Int) ≠ -1)
  · rfl

/-- The report comes in two pieces. -/
theorem queryCursor_returns_pieces : ∃ io',
    SendsRequest referencePlatform xtermTerminfo
      (repliesScreen [.data (ascii "\x1b[2"), .data (ascii ";1R")]).io io' ∧
    (∃ fuel r, readResponse referencePlatform 82 fuel [] io' = .ok r) := by
  obtain ⟨io', hsends, hfile, hreads⟩ :=
    repliesScreen_sends [.data (ascii "\x1b[2"), .data (ascii ";1R")]
  refine ⟨io', hsends, ?_⟩
  refine ((queryCursor_returns_iff hsends hfile xterm_user6 (by decide)).mpr ?_).1
  rw [hreads]
  refine ⟨by decide, by decide, ?_⟩
  rw [if_neg (by decide)]
  refine ⟨by decide, by decide, ?_⟩
  rw [if_pos (by decide)]
  have hparsed : nrlTerminfoStringParse2 (ascii "\x1b[%i%d;%dR")
      (cstr (([] ++ ascii "\x1b[2") ++ ascii ";1R")) none none = .ok (true, some 1, some 0) := by
    decide +kernel
  refine ⟨by decide, ?_⟩
  rw [hparsed]
  exact .inr ⟨by decide, by decide⟩

/-- The input ends behind a letter that was typed. -/
theorem queryCursor_returns_eof : ∃ io',
    SendsRequest referencePlatform xtermTerminfo (repliesScreen [.data (ascii "a")]).io io' ∧
    (∀ fuel r, readResponse referencePlatform 82 fuel [] io' ≠ .ok r) ∧
    ∀ r, queryCursor referencePlatform xtermTerminfo (repliesScreen [.data (ascii "a")]).io ≠ .ok r := by
  obtain ⟨io', hsends, hfile, hreads⟩ := repliesScreen_sends [.data (ascii "a")]
  have hgoes : ∀ fuel r, readResponse referencePlatform 82 fuel [] io' ≠ .ok r := by
    intro fuel r
    cases fuel with
    | zero => simp [Nanorl.readResponse]
    | succ fuel =>
      rw [readResponse_round hfile (World.read_whole hreads (by decide)), if_neg (by decide),
        if_neg (by decide)]
      exact readResponse_eof (by exact hfile) rfl (by decide) fuel r
  refine ⟨io', hsends, hgoes, fun r hquery => ?_⟩
  rw [hsends.queryCursor_eq, receiveReport_eq xterm_user6 (show _ = some 82 by decide)] at hquery
  obtain ⟨_, hloop, -⟩ := Run.bind_eq_ok.mp hquery
  exact hgoes _ _ hloop

end Nanorl
