import Rwhois.Server.Connection

/-!
# Server — Lookup

From the text of a directive line to the code that runs. `classify` cuts
the word behind the `-` and lowercases it, `register` lowercases the key
it files a directive under, `get` compares as it is told to; so the three
agree on the ASCII-lowercased name.

The history of a registry is the list of its registrations. A name stands
for the LAST directive that was registered under it, and the capability
mask is made of these directives and of no others.
-/

namespace Rwhois

open RustStd

variable {ω : Type}

/-! ## The words of a decoded line -/

/-- The word behind the `-`. -/
def directiveWord (line : Str) : Str := line.tail.takeWhile (!isBlank ·)

/-- The rest of the line behind that word and the blanks after it. -/
def directiveArgs (line : Str) : Str := (line.tail.dropWhile (!isBlank ·)).dropWhile isBlank

/-- Among the characters a decoder lets through, only the blanks are
whitespace. -/
theorem isWhitespace_eq_isBlank : ∀ n < 128, n = 9 ∨ 32 ≤ n →
    isWhitespace (Char.ofNat n) = isBlank (Char.ofNat n) := by
  decide

theorem RwhoisCodec.Decoded.isWhitespace_eq {line : Str} (h : RwhoisCodec.Decoded line) {c : Char}
    (hc : c ∈ line) : isWhitespace c = isBlank c := by
  obtain ⟨hlt, hkeep⟩ := h.char hc
  have heq := isWhitespace_eq_isBlank c.toNat hlt (hkeep.imp (fun htab => by rw [htab]; rfl) id)
  rwa [Char.ofNat_toNat] at heq

/-- A directive line is cut at its first blank, in both states of the
session. -/
theorem Request.read_of_isDirective {line : Str} (hline : RwhoisCodec.Decoded line)
    (hdir : isDirective line = true) (spooling : Bool) :
    Request.read line spooling =
      .directive (toAsciiLowercase (directiveWord line)) (directiveArgs line) := by
  have hne : line ≠ [] := by
    rintro rfl
    cases hdir
  have hspace : ∀ c ∈ line.tail, isWhitespace c = isBlank c :=
    fun c hc => hline.isWhitespace_eq (List.mem_of_mem_tail hc)
  have hnot : ∀ c ∈ line.tail, (!isWhitespace c) = !isBlank c :=
    fun c hc => by rw [hspace c hc]
  rw [Request.read, if_neg hne, if_pos hdir, takeWhile_congr hnot, dropWhile_congr hnot, trimStart,
    trimStartMatches]
  congr 1
  exact dropWhile_congr fun c hc => hspace c ((List.dropWhile_suffix _).subset hc)

/-! ## The registry by its history -/

/-- The directive that was registered last under a name. -/
def lastRegistered (ds : List (Directive ω)) (name : Str) : Option (Directive ω) :=
  ds.reverse.find? fun d => eqIgnoreAsciiCase d.name name

namespace Registry

/-- The registry a history of registrations leads to. -/
def ofHistory (ds : List (Directive ω)) : Registry ω := ds.foldl register new

theorem get_ofHistory (ds : List (Directive ω)) (name : Str) :
    (ofHistory ds).get (toAsciiLowercase name) = lastRegistered ds name := by
  rw [ofHistory, get_foldl_register, show (new : Registry ω).get _ = none from rfl, Option.or_none,
    lastRegistered]
  congr 1
  funext d
  simp only [eqIgnoreAsciiCase, beq_eq_decide, eq_comm]

/-- A directive is filed under its lowercased name. -/
theorem name_eq_of_get {ds : List (Directive ω)} {name : Str} {d : Directive ω}
    (h : (ofHistory ds).get name = some d) : name = toAsciiLowercase d.name := by
  rw [ofHistory, get_foldl_register, show (new : Registry ω).get _ = none from rfl,
    Option.or_none] at h
  simpa using List.find?_some h

/-- What is filed under a name is the last registration of that name. -/
theorem get_eq_some_iff (ds : List (Directive ω)) (d : Directive ω) :
    (∃ name, (ofHistory ds).get name = some d) ↔ lastRegistered ds d.name = some d := by
  constructor
  · rintro ⟨name, hget⟩
    rw [← get_ofHistory, ← name_eq_of_get hget]
    exact hget
  · intro hlast
    exact ⟨_, (get_ofHistory ds d.name).trans hlast⟩

/-- A bit of the mask is set if and only if a directive that can be called
has it. -/
theorem testBit_capabilityMask (ds : List (Directive ω)) (i : Nat) :
    (ofHistory ds).capabilityMask.toNat.testBit i = true ↔
      ∃ d, lastRegistered ds d.name = some d ∧ d.capability.toNat.testBit i = true := by
  have hmem : ∀ (name : Str) (d : Directive ω),
      (ofHistory ds).get name = some d ↔ ⟨name, d⟩ ∈ (ofHistory ds).byName.entries :=
    fun name d => AList.mem_lookup_iff
  rw [capabilityMask, testBit_foldl_or, show (0 : UInt32).toNat.testBit i = false by simp,
    Bool.false_or, List.any_eq_true]
  constructor
  · rintro ⟨⟨name, d⟩, hentry, hbit⟩
    exact ⟨d, (get_eq_some_iff ds d).mp ⟨name, (hmem name d).mpr hentry⟩, hbit⟩
  · rintro ⟨d, hlast, hbit⟩
    obtain ⟨name, hget⟩ := (get_eq_some_iff ds d).mpr hlast
    exact ⟨⟨name, d⟩, (hmem name d).mp hget, hbit⟩

/-- The order of the entries does not matter. -/
theorem capabilityMask_perm (self : Registry ω) {entries : List (Sigma fun _ : Str => Directive ω)}
    (h : entries.Perm self.byName.entries) :
    entries.foldl (fun acc entry => acc ||| entry.2.capability) 0 = self.capabilityMask := by
  apply h.foldl_eq'
  intro x _ y _ acc
  show (acc ||| x.2.capability) ||| y.2.capability = (acc ||| y.2.capability) ||| x.2.capability
  rw [UInt32.or_assoc, UInt32.or_assoc, UInt32.or_comm x.2.capability]

end Registry

namespace Server

/-- The answer to a directive that nobody registered. -/
def unknownDirective (line : Str) : Reply where
  buf := []
  last := some (.error .DIRECTIVE_NOT_AVAILABLE (some (toAsciiLowercase (directiveWord line))))
  closes := false

theorem body_unknown {ctx : ServerContext ω} {line : Str} {env : Env ω} {args : Str}
    (hread : Request.read line env.session.isSpooling =
      .directive (toAsciiLowercase (directiveWord line)) args)
    (hget : ctx.directives.get (toAsciiLowercase (directiveWord line)) = none) :
    (connection ctx).body env line = some (unknownDirective line, { env with out := .new }) := by
  simp only [connection, run_exchange, hread, dispatch, dispatchDirective, hget, Exec.run_throw]
  simp [unknownDirective, Reply.of, Reply.terminator, Reply.isQuit, Request.isQuery,
    ResponseWriter.new]

/-- **Directive lookup.** After any registrations, a directive line runs
the directive that was registered last under the word behind its `-`, up
to case, with the rest of the line behind the blanks; a word nobody
registered is answered with 400, and nothing else happens. The banner
shows the capabilities of the directives that can be called. -/
theorem directive_lookup (ds : List (Directive ω)) (ctx : ServerContext ω)
    (hdirectives : ctx.directives = .ofHistory ds) :
    (∀ line, RwhoisCodec.Decoded line → isDirective line = true → ∀ env,
      match lastRegistered ds (directiveWord line) with
      | some d =>
          (Request.classify line env.session.isSpooling >>= dispatch ctx).run env =
            (d.run ctx (directiveArgs line) >>= fun outcome => pure (.ofDirective outcome)).run env
      | none =>
          (connection ctx).body env line = some (unknownDirective line, { env with out := .new }) ∧
            ResponseCode.DIRECTIVE_NOT_AVAILABLE.code = 400) ∧
    (∃ c, ctx.banner.versions = [⟨1, 5, some c⟩] ∧ ∀ i, c.responseId.toNat.testBit i = true ↔
      i < 24 ∧ ∃ d, lastRegistered ds d.name = some d ∧ d.capability.toNat.testBit i = true) ∧
    ∀ entries : List (Sigma fun _ : Str => Directive ω),
      entries.Perm ctx.directives.byName.entries →
      entries.foldl (fun acc entry => acc ||| entry.2.capability) 0 =
        ctx.directives.capabilityMask := by
  refine ⟨?_, ?_, fun entries h => ctx.directives.capabilityMask_perm h⟩
  · intro line hline hdir env
    have hread := Request.read_of_isDirective hline hdir env.session.isSpooling
    have hget : ctx.directives.get (toAsciiLowercase (directiveWord line)) =
        lastRegistered ds (directiveWord line) := by
      rw [hdirectives, Registry.get_ofHistory]
    cases hlast : lastRegistered ds (directiveWord line) with
    | some d =>
        show (Request.classify line env.session.isSpooling >>= dispatch ctx).run env = _
        rw [Exec.run_bind_ok (Request.run_classify line _ env), hread, dispatch, dispatchDirective,
          hget, hlast]
    | none => exact ⟨body_unknown hread (hget.trans hlast), rfl⟩
  · refine ⟨_, rfl, ?_⟩
    intro i
    have hlow : ∀ mask : UInt32, (mask &&& 0x00FFFFFF).toNat.testBit i = true ↔
        i < 24 ∧ mask.toNat.testBit i = true := by
      intro mask
      rw [UInt32.toNat_and, Nat.testBit_and, show (0x00FFFFFF : UInt32).toNat = 2 ^ 24 - 1 from rfl,
        Nat.testBit_two_pow_sub_one, Bool.and_eq_true, decide_eq_true_eq, and_comm]
    rw [hlow, hdirectives, Registry.testBit_capabilityMask]

/-- `-quit` is overridden under a name in other letters. -/
theorem directive_lookup_override :
    let d : Directive Unit := ⟨"Quit".toList, 0x100, [], .custom fun _ lent => (.ok .ok, lent)⟩
    let ds := Builtin.all.map Builtin.directive ++ [d]
    let ctx : ServerContext Unit := { ServerContext.new with directives := .ofHistory ds }
    lastRegistered ds "QUIT".toList = some d ∧
      ∀ env, (Request.classify "-QUIT \tnow".toList env.session.isSpooling >>= dispatch ctx).run env =
        (d.run ctx "now".toList >>= fun outcome => pure (.ofDirective outcome)).run env := by
  intro d ds ctx
  have hlast : lastRegistered ds "QUIT".toList = some d := rfl
  refine ⟨hlast, ?_⟩
  intro env
  have hline : RwhoisCodec.Decoded "-QUIT \tnow".toList := by
    have hstream : .ok "-QUIT \tnow".toList ∈
        RwhoisCodec.lineSpec 512 (utf8 (unlines ["-QUIT \tnow".toList])) := by
      decide
    exact .of_lineSpec hstream
  have h := (directive_lookup ds ctx rfl).1 _ hline (by decide) env
  rwa [show directiveWord "-QUIT \tnow".toList = "QUIT".toList by decide, hlast,
    show directiveArgs "-QUIT \tnow".toList = "now".toList by decide] at h

end Server

end Rwhois
