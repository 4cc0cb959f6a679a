import Nanorl.Sound.Chunks
import Nanorl.Sound.Report

/-!
# Nanorl.Sound.Typeahead

What a cursor query leaves of the input.

A query takes whole reads, up to the first one that ends in the final letter of a report,
and keeps nothing of them but the position. What has been typed ahead is still there
afterwards exactly if these reads have brought no more than the report
(`typeahead_kept_iff`), whether the query opens a session or follows a resize.
-/

namespace Nanorl

open Run (Ends)

/-! ### What a query reads -/

/-- The loop has taken these reads, and nothing else has changed: behind them it has met
a response, or an error. -/
structure TakesReads (lastChar : Byte) (received : List Byte) (io : Io)
    (response : Option (List Byte)) (io' : Io) (taken : List (List Byte)) : Prop where
  same : ∃ reads errno, io' = { io with world := { io.world with reads, errno } }
  goes : ∀ i < taken.length, (received ++ (taken.take i).flatten).getLast? ≠ some lastChar
  ended : response = some (received ++ taken.flatten) ∧
      io.world.reads = taken.map .data ++ io'.world.reads ∨
    response = none ∧ ∃ errno, io.world.reads = taken.map .data ++ .failed errno :: io'.world.reads

section Reads

variable {P : Platform} {lastChar : Byte}

theorem TakesReads.cons {received bytes : List Byte} {io io' : Io} {response : Option (List Byte)}
    {taken : List (List Byte)} {reads : List ReadResult} (hreads : io.world.reads = .data bytes :: reads)
    (hgoes : received.getLast? ≠ some lastChar)
    (h : TakesReads lastChar (received ++ bytes) { io with world := { io.world with reads } } response
      io' taken) : TakesReads lastChar received io response io' (bytes :: taken) := by
  obtain ⟨⟨reads', errno, hsame⟩, hrest, hended⟩ := h
  refine ⟨⟨reads', errno, hsame⟩, fun i hi => ?_, ?_⟩
  · cases i with
    | zero => simpa using hgoes
    | succ i =>
      rw [List.take_succ_cons, List.flatten_cons, ← List.append_assoc]
      exact hrest i (Nat.lt_of_succ_lt_succ hi)
  · rw [hreads]
    refine hended.imp (fun ⟨hresponse, htaken⟩ => ?_) fun ⟨hnone, errno, htaken⟩ => ?_
    · rw [hresponse, List.append_assoc, List.flatten_cons]
      exact ⟨rfl, congrArg (ReadResult.data bytes :: ·) htaken⟩
    · exact ⟨hnone, errno, congrArg (ReadResult.data bytes :: ·) htaken⟩

/-- A loop that ends has taken whole reads. -/
theorem readResponse_takes {fuel : Nat} {received : List Byte} {io io' : Io}
    {response : Option (List Byte)} (hfile : io.readFile ≠ -1)
    (hgoes : received.getLast? ≠ some lastChar)
    (h : readResponse P lastChar fuel received io = .ok (response, io'))
    (hroom : ∀ bytes, response = some bytes → bytes.length < cprResBufSize) :
    ∃ taken, TakesReads lastChar received io response io' taken := by
  induction fuel generalizing received io with
  | zero => cases h
  | succ fuel ih =>
    cases hreads : io.world.reads with
    | nil => exact absurd h (readResponse_eof hfile hreads hgoes _ _)
    | cons result reads =>
      cases result with
      | failed errno =>
        rw [readResponse, nrlIoRawRead_eq hfile (by decide), World.read, hreads] at h
        obtain ⟨rfl, rfl⟩ := Prod.mk.inj (Except.ok.inj h)
        exact ⟨[], ⟨_, _, rfl⟩, by simp, .inr ⟨rfl, errno, hreads⟩⟩
      | data bytes =>
        have hbytes := readResponse_fits hfile hreads h hroom
        rw [readResponse_round hfile (World.read_whole hreads hbytes)] at h
        split at h
        · cases h
        · split at h
          · obtain ⟨rfl, rfl⟩ := Prod.mk.inj (Except.ok.inj h)
            refine ⟨[bytes], ⟨_, _, rfl⟩, fun i hi => ?_, .inl ⟨by simp, hreads⟩⟩
            obtain rfl := Nat.lt_one_iff.mp hi
            simpa using hgoes
          · rename_i hgoes'
            obtain ⟨taken, htakes⟩ := ih (by exact hfile) hgoes' h
            exact ⟨bytes :: taken, htakes.cons hreads hgoes⟩

/-- Reads that bring a response, the last of them its end, are taken. -/
theorem readResponse_taken {fuel : Nat} {received : List Byte} {io : Io} {taken : List (List Byte)}
    {reads : List ReadResult} (hfile : io.readFile ≠ -1) (hne : [] ∉ taken) (hsome : taken ≠ [])
    (hreads : io.world.reads = taken.map .data ++ reads)
    (hgoes : ∀ i < taken.length, (received ++ (taken.take i).flatten).getLast? ≠ some lastChar)
    (hlast : (received ++ taken.flatten).getLast? = some lastChar)
    (hroom : (received ++ taken.flatten).length ≤ cprResBufSize) (hfuel : taken.length ≤ fuel) :
    readResponse P lastChar fuel received io =
      .ok (some (received ++ taken.flatten), { io with world := { io.world with reads } }) := by
  induction taken generalizing received io fuel with
  | nil => exact absurd rfl hsome
  | cons bytes taken ih =>
    obtain ⟨fuel, rfl⟩ := Nat.exists_eq_succ_of_ne_zero (Nat.ne_of_gt (Nat.lt_of_lt_of_le
      (Nat.zero_lt_succ _) hfuel))
    rw [List.flatten_cons, ← List.append_assoc] at hlast hroom ⊢
    have hbytes : bytes ≠ [] := fun h => hne (h ▸ List.mem_cons_self)
    have hfirst : (received ++ bytes).length ≤ cprResBufSize := by
      rw [List.length_append] at hroom
      omega
    have hshort : bytes.length ≤ cprResBufSize := by
      rw [List.length_append] at hfirst
      omega
    have hroom' : ¬ (received ++ bytes = [] ∨ cprResBufSize < (received ++ bytes).length) :=
      not_or.mpr ⟨List.append_ne_nil_of_right_ne_nil _ hbytes, Nat.not_lt.mpr hfirst⟩
    rw [readResponse_round hfile (World.read_whole hreads hshort), if_neg hroom']
    by_cases hrest : taken = []
    · subst hrest
      rw [List.flatten_nil, List.append_nil] at hlast ⊢
      rw [if_pos hlast]
      rfl
    · have hone : (received ++ bytes).getLast? ≠ some lastChar := by
        have hlong : 1 < (bytes :: taken).length :=
          Nat.succ_lt_succ (List.length_pos_iff.mpr hrest)
        simpa using hgoes 1 hlong
      rw [if_neg hone]
      refine ih (by exact hfile) (fun h => hne (List.mem_cons_of_mem _ h)) hrest rfl (fun i hi => ?_) hlast
        hroom (Nat.le_of_succ_le_succ hfuel)
      have hgoes' := hgoes (i + 1) (Nat.succ_lt_succ hi)
      rwa [List.take_succ_cons, List.flatten_cons, ← List.append_assoc] at hgoes'

end Reads

/-! ### What is left -/

/-- The buffer and the preload are as they were, and behind them come what has been typed,
in some reads, and the reads that were to come then. -/
structure Io.Keeps (typed : List Byte) (rest : List ReadResult) (io io' : Io) : Prop where
  rdBuf : io'.rdBuf = io.rdBuf
  rdCount : io'.rdCount = io.rdCount
  rdUsed : io'.rdUsed = io.rdUsed
  rdPending : io'.rdPending = io.rdPending
  preloadData : io'.preloadData = io.preloadData
  reads : ∃ chunks : List (List Byte), [] ∉ chunks ∧
    io'.world.reads = chunks.map .data ++ rest ∧ chunks.flatten = typed

/-- So `nrl_io_read` goes on with all that was unread, and with what has been typed. -/
theorem Io.Keeps.unread {typed : List Byte} {rest : List ReadResult} {io io' : Io}
    (h : io.Keeps typed rest io') :
    io'.unread = slice io.rdBuf io.rdUsed (io.rdCount - io.rdUsed) ++ₛ
      (io.preloadData.getD [] ++ₛ (typed ++ₛ readsStream rest)) := by
  obtain ⟨chunks, hne, hreads, rfl⟩ := h.reads
  rw [← readsStream_append hne, ← hreads, Io.unread, Source.stream, Io.source, h.rdBuf, h.rdCount, h.rdUsed,
    h.preloadData]

/-- The first reads whose last one ends in the final letter have brought a report, and no
more and no less of the stream than the report: what comes behind it goes on as the stream
does behind the report, and what comes before it is repeated. -/
def TakesReport (P : Platform) (format : List Byte) (chunks : List (List Byte))
    (before report : List Byte) : Prop :=
  ∃ j, Answers P format (chunks.take j).flatten ∧
    (∀ i < j, (chunks.take i).flatten.getLast? ≠ format.getLast?) ∧
    (chunks.take j).flatten ++ before = before ++ report

section Keeps

variable {P : Platform} {t : Terminfo} {format : List Byte} {chunks : List (List Byte)}
  {rest : List ReadResult} {before report after : List Byte}

/-- What a query keeps is what its reads have left. -/
theorem takesReport_of_keeps {io : Io} (hfile : io.readFile ≠ -1)
    (huser6 : nrlLookupSpecial t TerminfoSpecial.user6.id = some format) {lastChar : Byte}
    (hlast : format.getLast? = some lastChar) (hreads : io.world.reads = chunks.map .data ++ rest)
    (hstream : chunks.flatten = before ++ report ++ after) {r : Option Pos2d × Io}
    (hreport : receiveReport P t io = .ok r) (hkeeps : io.Keeps (before ++ after) rest r.2) :
    TakesReport P format chunks before report := by
  obtain ⟨response, hloop, hanswers, -⟩ := receiveReport_ok huser6 hlast hreport
  obtain ⟨taken, htakes⟩ := readResponse_takes hfile (by simp) hloop fun bytes hbytes =>
    (hanswers bytes hbytes).length
  obtain ⟨left, hleftne, hleft, htyped⟩ := hkeeps.reads
  rcases htakes.ended with ⟨hresponse, hall⟩ | ⟨-, errno, hall⟩
  · rw [hreads, hleft, ← List.append_assoc, List.append_cancel_right_eq, ← List.map_append] at hall
    have hchunks : chunks = taken ++ left :=
      List.map_injective_iff.mpr (fun _ _ h => ReadResult.data.inj h) hall
    have htake : ∀ i ≤ taken.length, chunks.take i = taken.take i := by
      intro i hi
      rw [hchunks, List.take_append_of_le_length hi]
    refine ⟨taken.length, ?_, fun i hi => ?_, ?_⟩
    · rw [htake _ (Nat.le_refl _), List.take_length]
      exact hanswers _ hresponse
    · rw [htake i (Nat.le_of_lt hi), hlast]
      exact htakes.goes i hi
    · rw [htake _ (Nat.le_refl _), List.take_length]
      rw [hchunks, List.flatten_append, htyped, ← List.append_assoc] at hstream
      exact List.append_cancel_right hstream
  · -- a read that fails is none of those the stream has come in
    rw [hreads, hleft, ← List.cons_append, ← List.append_assoc, List.append_cancel_right_eq] at hall
    have hmem : ReadResult.failed errno ∈ chunks.map ReadResult.data := by
      rw [hall]
      simp
    simp at hmem

/-- A query whose reads bring the report and no more keeps the rest. -/
theorem TakesReport.keeps {io : Io} (h : TakesReport P format chunks before report)
    (hfile : io.readFile ≠ -1)
    (huser6 : nrlLookupSpecial t TerminfoSpecial.user6.id = some format) {lastChar : Byte}
    (hlast : format.getLast? = some lastChar) (hreads : io.world.reads = chunks.map .data ++ rest)
    (hne : [] ∉ chunks) (hstream : chunks.flatten = before ++ report ++ after) :
    ∃ r, receiveReport P t io = .ok r ∧ io.Keeps (before ++ after) rest r.2 := by
  obtain ⟨j, hanswers, hgoes, hconjugate⟩ := h
  obtain ⟨lastChar', hlast', hends⟩ := hanswers.last
  obtain rfl := Option.some.inj (hlast.symm.trans hlast')
  have hroom : (chunks.take j).flatten.length ≤ cprResBufSize := Nat.le_of_lt hanswers.length
  have hsome : chunks.take j ≠ [] := by
    intro hnil
    rw [hnil] at hends
    cases hends
  have hsplit : io.world.reads =
      (chunks.take j).map .data ++ ((chunks.drop j).map .data ++ rest) := by
    rw [← List.append_assoc, ← List.map_append, List.take_append_drop, hreads]
  have hfuel : (chunks.take j).length ≤ io.world.pendingReads + 2 := by
    have hlength := World.length_le_pendingReads io.world
    rw [hsplit, List.length_append, List.length_map] at hlength
    omega
  have hloop : readResponse P lastChar (io.world.pendingReads + 2) [] io =
      .ok (some ([] ++ (chunks.take j).flatten),
        { io with world := { io.world with reads := (chunks.drop j).map .data ++ rest } }) := by
    refine readResponse_taken hfile (fun h => hne (List.mem_of_mem_take h)) hsome hsplit
      (fun i hi => ?_) hends hroom hfuel
    rw [List.length_take] at hi
    rw [List.nil_append, List.take_take, Nat.min_eq_left (by omega), ← hlast]
    exact hgoes i (by omega)
  obtain ⟨position, hposition⟩ := (answers_iff hlast hends hroom).mp hanswers
  rw [receiveReport_eq huser6 hlast, hloop, Run.ok_bind]
  dsimp only
  rw [List.nil_append, hposition]
  refine ⟨_, rfl, rfl, rfl, rfl, rfl, rfl, chunks.drop j, fun h => hne (List.mem_of_mem_drop h), rfl, ?_⟩
  rw [← List.take_append_drop j chunks, List.flatten_append, ← hconjugate, List.append_assoc,
    List.append_cancel_left_eq] at hstream
  exact hstream

/-! ### Queries -/

theorem SendsRequest.writes {io io' : Io} (h : SendsRequest P t io io') : io.Writes io' := by
  obtain ⟨request, io₁, -, hwrite, hflush⟩ := h
  have hwrites : io.Writes io₁ := (nrlIoWrite_writes P request io).of_ok hwrite
  exact hwrites.trans ((nrlIoFlush_writes P io₁).of_ok hflush)

/-- Output does not touch what is kept, and neither does a size request. -/
theorem Io.Writes.keeps_iff {io io' io'' : Io} (h : io.Writes io') {typed : List Byte}
    (winsizes : List (Option (UInt16 × UInt16))) :
    io.Keeps typed rest { io'' with world := { io''.world with winsizes } } ↔ io'.Keeps typed rest io'' := by
  obtain ⟨_, _, _, _, _, rfl⟩ := h
  exact ⟨fun ⟨h₁, h₂, h₃, h₄, h₅, h₆⟩ => ⟨h₁, h₂, h₃, h₄, h₅, h₆⟩,
    fun ⟨h₁, h₂, h₃, h₄, h₅, h₆⟩ => ⟨h₁, h₂, h₃, h₄, h₅, h₆⟩⟩

theorem readResponse_readsFrom (lastChar : Byte) (fuel : Nat) (received : List Byte) (io : Io) :
    Ends (fun _ => True) (fun r => io.world.ReadsFrom r.2.world)
      (readResponse P lastChar fuel received io) := by
  induction fuel generalizing received io with
  | zero => exact .error trivial
  | succ fuel ih =>
    have hread : Ends (fun _ => True) (fun r => io.world.ReadsFrom r.2.world)
        (nrlIoRawRead P cprResBufSize io) :=
      (Ends.any _).bind fun _ _ => (Ends.any _).bind fun _ _ => .ok (io.world.readsFrom_read _)
    unfold readResponse
    refine hread.bind fun r hfrom => ?_
    obtain ⟨_ | bytes, io₁⟩ := r
    · exact .ok hfrom
    · dsimp only
      split
      · exact .error trivial
      · split
        · exact .error trivial
        · split
          · exact .ok hfrom
          · exact (ih _ io₁).mono fun _ => hfrom.trans

/-- A query asks for no size. -/
theorem receiveReport_winsizes {io : Io} {format : List Byte} {lastChar : Byte}
    (huser6 : nrlLookupSpecial t TerminfoSpecial.user6.id = some format)
    (hlast : format.getLast? = some lastChar) {r : Option Pos2d × Io}
    (h : receiveReport P t io = .ok r) : r.2.world.winsizes = io.world.winsizes := by
  obtain ⟨response, hloop, -⟩ := receiveReport_ok huser6 hlast h
  have hfrom : io.world.ReadsFrom r.2.world := (readResponse_readsFrom _ _ _ _).of_ok hloop
  exact hfrom.winsizes

/-- What comes behind a query, if it only asks for a size, keeps what the query keeps. -/
theorem keeps_behind_query {α : Type} {io io' : Io} {format : List Byte} {lastChar : Byte}
    (hsends : SendsRequest P t io io')
    (huser6 : nrlLookupSpecial t TerminfoSpecial.user6.id = some format)
    (hlast : format.getLast? = some lastChar) {typed : List Byte} {k : Option Pos2d × Io → Except Fault α}
    {ioOf : α → Io} (hk : ∀ r : Option Pos2d × Io, r.2.world.winsizes = io.world.winsizes →
      ∃ a winsizes, k r = .ok a ∧ ioOf a = { r.2 with world := { r.2.world with winsizes } }) :
    (∃ a, (queryCursor P t io >>= k) = .ok a ∧ io.Keeps typed rest (ioOf a)) ↔
      ∃ r, receiveReport P t io' = .ok r ∧ io'.Keeps typed rest r.2 := by
  have hsame : io'.world.winsizes = io.world.winsizes := by
    obtain ⟨_, _, _, _, _, rfl⟩ := hsends.writes
    rfl
  rw [hsends.queryCursor_eq]
  constructor
  · rintro ⟨a, hbehind, hkeeps⟩
    obtain ⟨r, hreport, hr⟩ := Run.bind_eq_ok.mp hbehind
    obtain ⟨a', winsizes, ha', hio⟩ := hk r ((receiveReport_winsizes huser6 hlast hreport).trans hsame)
    obtain rfl := Except.ok.inj (ha'.symm.trans hr)
    rw [hio] at hkeeps
    exact ⟨r, hreport, (hsends.writes.keeps_iff winsizes).mp hkeeps⟩
  · rintro ⟨r, hreport, hkeeps⟩
    obtain ⟨a, winsizes, ha, hio⟩ := hk r ((receiveReport_winsizes huser6 hlast hreport).trans hsame)
    refine ⟨a, ?_, ?_⟩
    · rw [hreport, Run.ok_bind, ha]
    · rw [hio]
      exact (hsends.writes.keeps_iff winsizes).mpr hkeeps

end Keeps

/-- **Typed ahead.** A cursor query, whether it opens a session or follows a resize, keeps
what has been typed before and behind the report exactly if its reads have brought the
report and no more. -/
theorem typeahead_kept_iff {P : Platform} {t : Terminfo} {s : Screen} {io' : Io}
    {format : List Byte} {lastChar : Byte} (hsends : SendsRequest P t s.io io')
    (hfile : s.io.readFile ≠ -1)
    (huser6 : nrlLookupSpecial t TerminfoSpecial.user6.id = some format)
    (hlast : format.getLast? = some lastChar) {chunks : List (List Byte)} {rest : List ReadResult}
    (hreads : s.io.world.reads = chunks.map .data ++ rest) (hne : [] ∉ chunks)
    {before report after : List Byte} (hstream : chunks.flatten = before ++ report ++ after) :
    ((∃ r, queryCursor P t s.io = .ok r ∧ s.io.Keeps (before ++ after) rest r.2) ↔
        TakesReport P format chunks before report) ∧
      ∀ (size : UInt16 × UInt16) (winsizes : List (Option (UInt16 × UInt16))),
        s.io.world.winsizes = some size :: winsizes →
        (nrlTermIsSmart t = true → ∀ (mode : EchoMode) (echoFile : Int), mode ≠ .off →
          ((∃ r, nrlRenderInit P t mode echoFile s = .ok r ∧
              s.io.Keeps (before ++ after) rest r.2.io) ↔
            TakesReport P format chunks before report)) ∧
        (s.render.resizeFlag = true → s.render.termSmart = true → s.render.echoMode ≠ .off →
          ((∃ s', requery P t s = .ok s' ∧ s.io.Keeps (before ++ after) rest s'.io) ↔
            TakesReport P format chunks before report)) := by
  have hreport : (∃ r, receiveReport P t io' = .ok r ∧ io'.Keeps (before ++ after) rest r.2) ↔
      TakesReport P format chunks before report := by
    obtain ⟨_, _, _, _, _, rfl⟩ := hsends.writes
    constructor
    · rintro ⟨r, hok, hkeeps⟩
      exact takesReport_of_keeps (by exact hfile) huser6 hlast (by exact hreads) hstream hok hkeeps
    · intro htakes
      exact htakes.keeps (by exact hfile) huser6 hlast (by exact hreads) hne hstream
  refine ⟨?_, fun size winsizes hsize => ⟨fun hsmart mode echoFile hmode => ?_,
    fun hresize hsmart hmode => ?_⟩⟩
  · have hbind : queryCursor P t s.io = queryCursor P t s.io >>= .ok := by
      cases queryCursor P t s.io <;> rfl
    rw [hbind, ← hreport]
    exact keeps_behind_query hsends huser6 hlast fun r _ => ⟨r, _, rfl, rfl⟩
  · obtain ⟨render, -, -, hinit⟩ := nrlRenderInit_smart (P := P) hmode hsmart echoFile s
    rw [hinit, ← hreport]
    refine keeps_behind_query hsends huser6 hlast fun r hr => ?_
    obtain ⟨_ | position, io₁⟩ := r
    · exact ⟨_, _, rfl, rfl⟩
    · dsimp only
      rw [querySize_replied (hr.trans hsize)]
      exact ⟨_, _, rfl, rfl⟩
  · unfold requery
    rw [hresize, hsmart, if_pos (by simp [hmode]), ← hreport]
    refine keeps_behind_query hsends huser6 hlast fun r hr => ?_
    obtain ⟨position, io₁⟩ := r
    dsimp only
    rw [querySize_replied (hr.trans hsize)]
    exact ⟨_, _, rfl, rfl⟩

/-! ### Reports that end once -/

/-- A text that ends in a letter the other has only at its end is no other turn of it. -/
theorem eq_of_conjugate {α : Type} {x y : List α} {c : α} (hx : x.getLast? = some c)
    (hy : c ∉ y.dropLast) : ∀ {u : List α}, x ++ u = u ++ y → x = y := by
  intro u
  induction hn : u.length using Nat.strongRecOn generalizing u with
  | _ n ih =>
    intro h
    have hpos : 0 < x.length := by
      rw [List.length_pos_iff]
      rintro rfl
      cases hx
    rcases List.append_eq_append_iff.mp h with ⟨u', hu, hu'⟩ | ⟨w, hxw, hyw⟩
    · -- the text is at the beginning of `u` as well, and the rest of `u` is shorter
      refine ih u'.length ?_ rfl (hu.symm.trans hu')
      rw [← hn, hu, List.length_append]
      omega
    · by_cases hw : w = []
      · rw [hxw, hyw, hw, List.append_nil, List.nil_append]
      · cases u with
        | nil => rw [hxw, hyw, List.append_nil, List.nil_append]
        | cons d u =>
          refine absurd ?_ hy
          rw [hyw, List.dropLast_append_of_ne_nil (List.cons_ne_nil d u)]
          rw [hxw, List.getLast?_append_of_ne_nil _ hw] at hx
          exact List.mem_append_left _ (List.mem_of_getLast? hx)

/-- A report whose final letter is nowhere else in it is taken where it comes in reads of its
own, behind nothing but further copies of it. -/
theorem takesReport_iff {P : Platform} {format : List Byte} {chunks : List (List Byte)}
    (hne : [] ∉ chunks) {before report : List Byte} (hreport : Answers P format report)
    (honce : ∀ c ∈ report.dropLast, format.getLast? ≠ some c) :
    TakesReport P format chunks before report ↔
      (∃ j, (chunks.take j).flatten = report) ∧ before ++ report = report ++ before := by
  constructor
  · rintro ⟨j, hanswers, -, hconjugate⟩
    obtain ⟨lastChar, hlast, hends⟩ := hanswers.last
    have heq := eq_of_conjugate hends (fun hmem => honce lastChar hmem hlast) hconjugate
    rw [heq] at hconjugate
    exact ⟨⟨j, heq⟩, hconjugate.symm⟩
  · rintro ⟨⟨j, hj⟩, hcommutes⟩
    have htake : chunks.take (min j chunks.length) = chunks.take j := by
      rw [← List.take_take, List.take_length]
    refine ⟨min j chunks.length, by rwa [htake, hj], fun i hi hends => ?_, ?_⟩
    · obtain ⟨lastChar, hlast, -⟩ := hreport.last
      rw [hlast] at hends
      refine honce lastChar ?_ hlast
      have hsplit : report = (chunks.take i).flatten ++
          ((chunks.take (min j chunks.length)).drop i).flatten := by
        rw [← hj, ← htake, ← List.flatten_append]
        conv_lhs => rw [← List.take_append_drop i (chunks.take (min j chunks.length))]
        rw [List.take_take, Nat.min_eq_left (Nat.le_of_lt hi)]
      have hrest : ((chunks.take (min j chunks.length)).drop i).flatten ≠ [] := by
        intro hempty
        obtain ⟨chunk, hchunk⟩ := List.exists_mem_of_length_pos (show
          0 < ((chunks.take (min j chunks.length)).drop i).length by
            rw [List.length_drop, List.length_take]
            omega)
        have hnil := List.flatten_eq_nil_iff.mp hempty chunk hchunk
        exact hne (hnil ▸ List.mem_of_mem_take (List.mem_of_mem_drop hchunk))
      rw [hsplit, List.dropLast_append_of_ne_nil hrest]
      exact List.mem_append_left _ (List.mem_of_getLast? hends)
    · rw [htake, hj, hcommutes]

/-! ### Two streams -/

theorem xterm_position {response : List Byte} {rowBuf colBuf : Int}
    (hparsed : nrlTerminfoStringParse2 (ascii "\x1b[%i%d;%dR") (cstr response) none none =
      .ok (true, some rowBuf, some colBuf)) (hsigns : 0 ≤ rowBuf ∧ 0 ≤ colBuf)
    (hroom : response.length ≠ cprResBufSize) :
    positionOf referencePlatform (ascii "\x1b[%i%d;%dR") response =
      .ok { row := uint32 rowBuf, col := uint32 colBuf } :=
  positionOf_ok.mpr ⟨hroom, true, rowBuf, colBuf, hparsed, .inr hsigns, rfl⟩

/-- What is typed once the report has been read waits in the next read. -/
theorem typeahead_kept_behind : ∃ r,
    queryCursor referencePlatform xtermTerminfo
      (repliesScreen [.data (ascii "\x1b[2;1R"), .data (ascii "ls")]).io = .ok r ∧
    (repliesScreen [.data (ascii "\x1b[2;1R"), .data (ascii "ls")]).io.Keeps ([] ++ ascii "ls") [] r.2 := by
  obtain ⟨io', hsends, -⟩ := repliesScreen_sends [.data (ascii "\x1b[2;1R"), .data (ascii "ls")]
  have hreads : (repliesScreen [.data (ascii "\x1b[2;1R"), .data (ascii "ls")]).io.world.reads =
      [ascii "\x1b[2;1R", ascii "ls"].map .data ++ [] := rfl
  have hstream : [ascii "\x1b[2;1R", ascii "ls"].flatten = [] ++ ascii "\x1b[2;1R" ++ ascii "ls" := rfl
  have hparsed : nrlTerminfoStringParse2 (ascii "\x1b[%i%d;%dR") (cstr (ascii "\x1b[2;1R")) none none =
      .ok (true, some 1, some 0) := by
    decide +kernel
  refine (typeahead_kept_iff hsends (by decide) xterm_user6 (show _ = some 82 by decide) hreads (by decide)
    hstream).1.mpr ?_
  have hroom : (ascii "\x1b[2;1R").length ≤ cprResBufSize := by decide
  refine ⟨1, (answers_iff (show _ = some 82 by decide) (by decide) hroom).mpr
    ⟨_, xterm_position hparsed (by decide) (by decide)⟩, ?_, rfl⟩
  decide

/-- A letter that comes in the same read as the report is gone, even where the position is
right. -/
theorem typeahead_kept_same : ∃ io'',
    queryCursor referencePlatform xtermTerminfo (repliesScreen [.data (ascii "\x1b[2;1RR")]).io =
      .ok (some ⟨1, 0⟩, io'') ∧
    ¬ (repliesScreen [.data (ascii "\x1b[2;1RR")]).io.Keeps ([] ++ ascii "R") [] io'' := by
  obtain ⟨io', hsends, hfile, hreads⟩ := repliesScreen_sends [.data (ascii "\x1b[2;1RR")]
  have hparsed : nrlTerminfoStringParse2 (ascii "\x1b[%i%d;%dR") (cstr (ascii "\x1b[2;1RR")) none none =
      .ok (true, some 1, some 0) := by
    decide +kernel
  refine ⟨{ io' with world := { io'.world with reads := [] } }, ?_, fun hkeeps => ?_⟩
  · rw [hsends.queryCursor_eq, receiveReport_eq xterm_user6 (show _ = some 82 by decide),
      readResponse_whole hfile hreads (by decide) (by decide), Run.ok_bind]
    dsimp only
    rw [xterm_position hparsed (by decide) (by decide)]
    rfl
  · obtain ⟨chunks, -, hnone, htyped⟩ := hkeeps.reads
    have hchunks : chunks = [] := by simpa using hnone.symm
    subst hchunks
    cases htyped

end Nanorl
