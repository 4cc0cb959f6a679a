import Nanorl.Sound.Edited
import Nanorl.Sound.Terminfo

/-!
# Nanorl.Sound.Database

A terminal's own description.

`find_entry` takes the first of its databases that has an entry of the terminal's name. If that is
a compiled description, a process that has loaded nothing yet comes to know the keys of the
description, and keeps to them: later calls look neither for the file nor at the variables that
say where it is (`nanorl_described`).
-/

namespace Nanorl

/-! ### Finding the entry -/

/-- The databases `find_entry` looks in, in its order. -/
def Environment.databases (env : Environment) : List (List Byte) :=
  env.terminfo.toList ++ (env.home.map (· ++ ascii "/.terminfo")).toList
    ++ (env.terminfoDirs.map strtokColons).getD [] ++ sysdbPath

/-- The directories of `$TERMINFO_DIRS` are those between its colons, but for the empty ones. -/
theorem strtokColons_intercalate {dirs : List (List Byte)} (hne : dirs ≠ []) (h : ∀ dir ∈ dirs, 58 ∉ dir) :
    strtokColons ([58].intercalate dirs) = dirs.filter (· ≠ []) := by
  rw [strtokColons, List.splitOn_intercalate 58 h hne]

/-- The first database with an entry of the terminal's name has the description. -/
structure Environment.Describes (env : Environment) (term : List Byte) (d : Description) : Prop where
  named : env.term = some term
  plain : strstr term (ascii "xterm") = false
  entry : ∃ before dir after l extended, env.databases = before ++ dir :: after ∧
    (∀ db ∈ before, tryOpen env db term = none) ∧ tryOpen env dir term = some (d.file l extended)

/-- The tables of the description, once they are loaded. -/
def Description.terminfo (d : Description) : Terminfo where
  attemptedLoad := true
  loadResult := true
  inputs := inputSeqIndices.map d.lookup
  customs := customSeqIndices.map d.lookup
  outputs := outputSeqIndices.map d.lookup
  specials := specialSeqIndices.map d.lookup

section Load

variable {env env' : Environment} {d : Description} {term : List Byte}

theorem parse_described (l : Layout d) (extended : List Byte) :
    parse (d.file l extended) { Terminfo.unloaded with attemptedLoad := true } =
      .ok (true, { d.terminfo with loadResult := false }) := by
  have hsections := file_hasSections l extended
  have hlookups : ∀ {indices : List Nat}, (∀ i ∈ indices, i < 295) →
      lookupStrings (Words.encode 2 l.offsets) l.table d.strings.length indices =
        .ok (indices.map d.lookup) := fun h =>
    lookupStrings_eq fun i hi => lookupString_file l ((h i hi).trans_le d.le_strings)
  have hcount : (d.file l extended).word 4 = d.strings.length := file_word l extended rfl
  have hseekable : (d.file l extended).seekable = true := rfl
  have hlength := hsections.1
  rw [parse_of_magic (by omega) (file_magic l extended), if_pos hseekable, parseStrings_eq hlength, if_pos hsections,
    file_strings, file_table, hcount, lookupTables, hlookups (by decide), Run.ok_bind, hlookups (by decide),
    Run.ok_bind, hlookups (by decide), Run.ok_bind, hlookups (by decide), Run.ok_bind]
  rfl

theorem nrlLoadTerminfo_described (h : env.Describes term d) :
    nrlLoadTerminfo env .unloaded = .ok (true, d.terminfo) := by
  obtain ⟨before, dir, after, l, extended, hdatabases, hbefore, hopen⟩ := h.entry
  have hentry : findEntry env term = some (d.file l extended) := by
    show env.databases.findSome? (fun dir => tryOpen env dir term) = _
    rw [hdatabases, List.findSome?_append, List.findSome?_eq_none_iff.mpr hbefore, List.findSome?_cons, hopen]
    rfl
  rw [nrlLoadTerminfo, if_neg (by decide), h.named]
  dsimp only
  rw [if_neg (by rw [h.plain]; decide), hentry]
  dsimp only
  rw [parse_described, Run.ok_bind]
  rfl

/-- What is found in a description is neither empty nor cut short. -/
theorem Description.terminfo_loadable (d : Description) : d.terminfo.Loadable := by
  intro w hw
  have hmem : ∃ i, d.lookup i = some w := by
    rcases List.mem_append.mp hw with hw | hw
    · obtain ⟨i, -, hi⟩ := List.mem_map.mp hw
      exact ⟨i, hi⟩
    · obtain ⟨i, -, hi⟩ := List.mem_map.mp hw
      exact ⟨i, hi⟩
  obtain ⟨i, hi⟩ := hmem
  obtain ⟨c, -, hc⟩ := Option.bind_eq_some_iff.mp hi
  cases c with
  | absent => cases hc
  | cancelled => cases hc
  | string text nulFree =>
    change (if text = [] then none else some text) = some w at hc
    split at hc
    · cases hc
    · rename_i hne
      obtain rfl := Option.some.inj hc
      exact ⟨hne, nulFree⟩

/-! ### Keeping it -/

/-- It names a terminal that is no xterm. -/
def Environment.Plain (env : Environment) : Prop :=
  ∃ term, env.term = some term ∧ strstr term (ascii "xterm") = false

theorem Environment.Describes.isPlain (h : env.Describes term d) : env.Plain := ⟨term, h.named, h.plain⟩

theorem dfaEntries_plain {t : Terminfo} {term term' : List Byte} (h : strstr term (ascii "xterm") = false)
    (h' : strstr term' (ascii "xterm") = false) : dfaEntries t term' = dfaEntries t term := by
  rw [dfaEntries, dfaEntries, h, h']

/-- A process that has loaded its description knows it in other environments as well. -/
theorem Process.Idle.elsewhere {t : Terminfo} {keys : List DfaEntry} {p : Process} (h : p.Idle env t keys)
    (hsettled : p.terminfo = t) (hplain : env.Plain) (hplain' : env'.Plain) : p.Idle env' t keys := by
  obtain ⟨term, hterm, hno⟩ := hplain
  obtain ⟨term', hterm', hno'⟩ := hplain'
  have hload : ∀ {r}, nrlLoadTerminfo env p.terminfo = .ok (r, t) →
      nrlLoadTerminfo env' p.terminfo = .ok (r, t) := by
    intro r hload
    obtain ⟨hattempted, -⟩ := nrlLoadTerminfo_again h.fresh hload
    rw [← hsettled] at hattempted
    rw [nrlLoadTerminfo, if_pos hattempted] at hload ⊢
    exact hload
  have hknows := h.knows
  refine ⟨h.steady, h.fresh, ?_, h.table⟩
  cases hknows with
  | @found envTerm hfound henv ht hu hroot =>
    obtain rfl : term = envTerm := Option.some.inj (hterm.symm.trans henv)
    have hsame := dfaEntries_plain (t := t) hno hno'
    rw [nrlDfaBuild, ← hsame] at hroot
    rw [Terminfo.Unambiguous, ← hsame] at hu
    rw [← hsame]
    exact .found (hload hfound) hterm' ht hu hroot
  | missing hmissing hroot => exact .missing (hload hmissing) hroot

/-- The static data of the library before the first call, where no call but a read fails. -/
structure Process.Fresh (p : Process) : Prop where
  steady : p.world.Steady
  terminfo : p.terminfo = .unloaded
  root : p.root = dfaRoot
  table : p.escapeTable = nrlManipClearCustomTable

theorem Process.Fresh.idle {p : Process} (h : p.Fresh) (hd : env.Describes term d)
    (hu : d.terminfo.Unambiguous term) : p.Idle env d.terminfo (dfaEntries d.terminfo term) := by
  refine ⟨h.steady, fun _ => ?_, .found ?_ hd.named d.terminfo_loadable hu (.inl h.root), h.table⟩
  · rw [h.terminfo]
    rfl
  · rw [h.terminfo]
    exact nrlLoadTerminfo_described hd

end Load

/-! ### Call after call -/

/-- Between the calls of a process that has loaded its description, each in an environment of its
own. -/
structure TypedCall.Settled (P : Platform) (t : Terminfo) (keys : List DfaEntry) (tty : Bool)
    (rest : List ReadResult) (echoed : List Byte) (calls : List (Environment × TypedCall)) (p : Process) :
    Prop where
  comes : ∀ call ∈ calls, call.2.Comes P t keys
  plain : ∀ call ∈ calls, call.1.Plain
  idle : ∃ env : Environment, env.Plain ∧ p.Idle env t keys
  settled : p.terminfo = t
  isTty : p.world.isTty = tty
  reads : p.world.reads = (calls.flatMap fun call => call.2.reads) ++ rest
  echoed : p.world.echoed ++ (calls.flatMap fun call => call.2.sent t) = echoed

section Described

variable {P : Platform} {env : Environment} {t : Terminfo} {keys : List DfaEntry} {p : Process}
  {d : Description} {term : List Byte}

theorem TypedCall.Settled.perform (hlaw : P.ConsumesAnnounced) (hutf8 : P.Utf8Laws)
    {call : Environment × TypedCall} {calls : List (Environment × TypedCall)} {tty : Bool}
    {rest : List ReadResult} {echoed : List Byte}
    (h : Settled P t keys tty rest echoed (call :: calls) p) :
    ∃ p', call.2.perform P call.1 p = .ok (call.2.result P t tty, p') ∧
      Settled P t keys tty rest echoed calls p' := by
  have hreads := h.reads
  have hechoed := h.echoed
  rw [List.flatMap_cons, List.append_assoc] at hreads
  obtain ⟨env, hplain, hidle⟩ := h.idle
  have hhere := h.plain call List.mem_cons_self
  obtain ⟨p', hcall, hidle', hsettled, htty, hreads', hechoed'⟩ := TypedCall.perform_comes hlaw hutf8
    (h.comes call List.mem_cons_self) (hidle.elsewhere h.settled hplain hhere) hreads
  rw [h.isTty] at hcall htty
  refine ⟨p', hcall, fun c hc => h.comes c (List.mem_cons_of_mem _ hc),
    fun c hc => h.plain c (List.mem_cons_of_mem _ hc), ⟨call.1, hhere, hidle'⟩, hsettled, htty, hreads', ?_⟩
  rw [hechoed', List.append_assoc]
  exact hechoed

/-- **A terminal's own keys.** Where the first database with an entry of the terminal's name has a
compiled description whose key sequences can be told apart, every line that is typed with these
keys comes back edited, in the first call of a process and in all that follow, whatever becomes of
the databases and of the variables that lead to them as long as `$TERM` names no xterm. -/
theorem nanorl_described (hlaw : P.ConsumesAnnounced) (hutf8 : P.Utf8Laws) (hd : env.Describes term d)
    (hu : d.terminfo.Unambiguous term) (hp : p.Fresh) {c : TypedCall}
    (hc : c.Comes P d.terminfo (dfaEntries d.terminfo term)) {later : List (Environment × TypedCall)}
    (hlater : ∀ call ∈ later, call.2.Comes P d.terminfo (dfaEntries d.terminfo term))
    (hplain : ∀ call ∈ later, call.1.Plain) {rest : List ReadResult}
    (hreads : p.world.reads = c.reads ++ ((later.flatMap fun call => call.2.reads) ++ rest)) :
    ∃ p', Run.outcomes (fun call : Environment × TypedCall => call.2.perform P call.1) ((env, c) :: later) p =
        .ok (((env, c) :: later).map fun call => call.2.result P d.terminfo p.world.isTty, p') ∧
      p'.world.reads = rest ∧
      p'.world.echoed = p.world.echoed ++ ((env, c) :: later).flatMap fun call => call.2.sent d.terminfo := by
  obtain ⟨p₁, hcall, hidle, hsettled, htty, hreads₁, hechoed₁⟩ :=
    TypedCall.perform_comes hlaw hutf8 hc (hp.idle hd hu) hreads
  obtain ⟨p', hrun, hend⟩ := Run.outcomes_progress
    (fun call calls p => TypedCall.Settled.perform (p := p) hlaw hutf8)
    (TypedCall.Settled.mk hlater hplain ⟨env, hd.isPlain, hidle⟩ hsettled htty hreads₁ rfl)
  have hechoed := hend.echoed
  rw [List.flatMap_nil, List.append_nil, hechoed₁, List.append_assoc] at hechoed
  refine ⟨p', ?_, hend.reads, hechoed⟩
  rw [Run.outcomes]
  dsimp only
  rw [hcall]
  dsimp only
  rw [hrun]
  rfl

end Described

/-! ### An entry in `$TERMINFO_DIRS` -/

/-- A terminal with two cursor keys, which calls itself `vt`. -/
def vtDescription : Description where
  names := ascii "vt"
  booleans := [0, 0, 0]
  wide := false
  numbers := [80]
  strings := (List.range 295).map fun slot =>
    if slot = 79 then .string (ascii "\x1b[D") (by decide)
    else if slot = 83 then .string (ascii "\x1b[C") (by decide)
    else if slot = 88 then .string (ascii "\x1b>") (by decide)
    else if slot = 89 then .string (ascii "\x1b=") (by decide)
    else if slot = 76 then .cancelled
    else .absent
  names_lt := by decide
  booleans_lt := by decide
  numbers_lt := by decide
  strings_lt := by rw [List.length_map, List.length_range]; decide
  le_strings := by rw [List.length_map, List.length_range]

/-- Its strings one after the other. -/
def vtLayout : Layout vtDescription := vtDescription.packed (by decide +kernel)

/-- Its entry is in the second of two directories. -/
def vtEnvironment : Environment where
  term := ascii "vt"
  terminfo := none
  home := ascii "/root"
  terminfoDirs := some ([58].intercalate [ascii "/a", [], ascii "/b"])
  fopen := fun path =>
    if path = ascii "/b/v/vt" then some (vtDescription.file vtLayout []) else none

theorem vtEnvironment_describes : vtEnvironment.Describes (ascii "vt") vtDescription := by
  have hdirs : strtokColons ([58].intercalate [ascii "/a", [], ascii "/b"]) = [ascii "/a", ascii "/b"] :=
    strtokColons_intercalate (by decide) (by decide)
  have hopen : ∀ db, tryOpen vtEnvironment db (ascii "vt") =
      if cstr (db ++ ascii "/" ++ [(ascii "vt").headD 0] ++ ascii "/" ++ ascii "vt") = ascii "/b/v/vt" then
        some (vtDescription.file vtLayout []) else none := fun _ => rfl
  refine ⟨rfl, by decide, [ascii "/root/.terminfo", ascii "/a"], ascii "/b", sysdbPath, vtLayout, [], ?_, ?_, ?_⟩
  · show _ ++ (some (strtokColons _)).getD [] ++ sysdbPath = _
    rw [hdirs]
    rfl
  · intro db hdb
    rw [hopen]
    simp only [List.mem_cons, List.not_mem_nil, or_false] at hdb
    rcases hdb with rfl | rfl
    · exact if_neg (by decide)
    · exact if_neg (by decide)
  · rw [hopen]
    exact if_pos (by decide)

/-- The left key of the terminal. -/
def vtLeft : Keystroke := .key ⟨ascii "\x1b[D", ⟨0⟩, false⟩

/-- An `a`, the left key and a `b`. -/
def vtCall : TypedCall where
  fuel := 4
  config := silentConf
  typed := [.char 'a', vtLeft, .char 'b']
  ending := 10
  reads := [.data [97, 0x1b], .data [0x5b, 0x44, 98, 10]]

theorem nanorl_described_vt : ∃ p', Run.outcomes
      (fun call : Environment × TypedCall => call.2.perform referencePlatform call.1)
      [(vtEnvironment, vtCall), (bareEnvironment (ascii "vt"), vtCall)]
      (terminalProcess (vtCall.reads ++ (vtCall.reads ++ [.data [99]]))) =
        .ok ([{ data := some [98, 97], error := .ok }, { data := some [98, 97], error := .ok }], p') ∧
    p'.world.reads = [.data [99]] := by
  have hcomes : vtCall.Comes referencePlatform vtDescription.terminfo
      (dfaEntries vtDescription.terminfo (ascii "vt")) :=
    ⟨⟨by decide +kernel, by decide +kernel, .inl rfl, by decide +kernel, by decide +kernel, by decide⟩,
      ⟨by decide, by decide, rfl⟩, fun _ _ _ _ => by decide +kernel, by decide +kernel⟩
  have hfresh : (terminalProcess (vtCall.reads ++ (vtCall.reads ++ [.data [99]]))).Fresh :=
    ⟨⟨fun _ hr => absurd hr List.not_mem_nil, fun _ hr => absurd hr List.not_mem_nil⟩, rfl, rfl, rfl⟩
  have hlater : ∀ call ∈ [(bareEnvironment (ascii "vt"), vtCall)],
      call.2.Comes referencePlatform vtDescription.terminfo (dfaEntries vtDescription.terminfo (ascii "vt")) :=
    fun call hcall => List.mem_singleton.mp hcall ▸ hcomes
  have hplain : ∀ call ∈ [(bareEnvironment (ascii "vt"), vtCall)], call.1.Plain :=
    fun call hcall => List.mem_singleton.mp hcall ▸ ⟨ascii "vt", rfl, by decide⟩
  have hreads : (terminalProcess (vtCall.reads ++ (vtCall.reads ++ [.data [99]]))).world.reads =
      vtCall.reads ++ (([(bareEnvironment (ascii "vt"), vtCall)].flatMap fun call => call.2.reads) ++ [.data [99]]) :=
    rfl
  obtain ⟨p', hrun, hreads, -⟩ := nanorl_described referencePlatform_consumes referencePlatform_utf8
    vtEnvironment_describes (by decide +kernel) hfresh hcomes hlater hplain hreads
  have hresult : vtCall.result referencePlatform vtDescription.terminfo true =
      { data := some [98, 97], error := .ok } := by
    decide +kernel
  rw [List.map_cons, List.map_cons, List.map_nil, show (terminalProcess _).world.isTty = true from rfl,
    hresult] at hrun
  exact ⟨p', hrun, hreads⟩

end Nanorl
