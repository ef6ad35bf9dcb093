import Rwhois.Codec.RoundTrip
import Rwhois.Query.Cursor
import Rwhois.Server.Session

/-!
# Server — LineWidth

How long the lines of the server are. The greeting goes through
`Encoder::encode`, which refuses what is longer than `max_line`. Replies
go through `send_buf`, which does not look. The server's own words stay
below 76 bytes, but a refusal repeats the text of the client behind a
code and a message, and `-status` repeats the identifier that was given
to `-rwhois`: a line the decoder just took can be answered by one that
the peer's decoder refuses.

`Short` says how long these texts may be. If all of them are, every line
of the connection fits.
-/

namespace Rwhois

open RustStd

variable {ω : Type}

/-! ## Lines that fit -/

/-- Whole lines, none of them wider than `width` with its terminator. -/
def Fits (width : Nat) (bytes : Bytes) : Prop :=
  ∃ lines, bytes = utf8 (unlines lines) ∧ ∀ l ∈ lines, byteLen l + 2 ≤ width

section Fits

variable {width : Nat}

theorem Fits.nil : Fits width [] := ⟨[], rfl, by simp⟩

theorem Fits.line {l : Str} (h : byteLen l + 2 ≤ width) : Fits width (utf8 (l ++ crlf)) :=
  ⟨[l], by simp, by simpa using h⟩

theorem Fits.append {a b : Bytes} (ha : Fits width a) (hb : Fits width b) : Fits width (a ++ b) := by
  obtain ⟨ls, rfl, hls⟩ := ha
  obtain ⟨ms, rfl, hms⟩ := hb
  refine ⟨ls ++ ms, by simp, ?_⟩
  intro l hl
  rcases List.mem_append.mp hl with hl | hl
  · exact hls l hl
  · exact hms l hl

theorem Fits.flatMap {α : Type} {f : α → Bytes} {as : List α} (h : ∀ a ∈ as, Fits width (f a)) :
    Fits width (as.flatMap f) := by
  induction as with
  | nil => exact .nil
  | cons a as ih =>
      rw [List.flatMap_cons]
      exact (h a List.mem_cons_self).append (ih fun a' ha' => h a' (List.mem_cons_of_mem a ha'))

theorem utf8_crlf : utf8 crlf = [CR, LF] := by decide

/-- **The peer's decoder takes lines that fit.** -/
theorem Fits.lineTooLong_notMem {bytes : Bytes} (h : Fits width bytes) (max : Nat) :
    .err (.lineTooLong max) ∉ RwhoisCodec.lineSpec width bytes := by
  obtain ⟨lines, rfl, hlines⟩ := h
  induction lines with
  | nil => simp [RwhoisCodec.lineSpec, RwhoisCodec.pieceResults]
  | cons l ls ih =>
      have hbytes : utf8 (unlines (l :: ls)) = (utf8 l ++ [CR]) ++ LF :: utf8 (unlines ls) := by
        rw [unlines_cons, utf8_append, utf8_append, utf8_crlf]
        simp
      have hfits : ∀ p ∈ (utf8 l ++ [CR]).splitOn LF, p.length + 1 ≤ width := by
        intro p hp
        have hlen := length_le_of_mem_splitOn hp
        have hl := hlines l List.mem_cons_self
        rw [List.length_append, length_utf8, List.length_singleton] at hlen
        omega
      rw [RwhoisCodec.lineSpec, hbytes, List.splitOn_append_cons_self,
        RwhoisCodec.pieceResults_append hfits (List.splitOn_ne_nil LF _), List.mem_append, not_or]
      constructor
      · intro hmem
        obtain ⟨seg, -, hseg⟩ := List.mem_map.mp hmem
        rcases RwhoisCodec.lineResult_cases seg with ⟨line, hok⟩ | herr
        · rw [hok] at hseg
          cases hseg
        · rw [herr] at hseg
          cases hseg
      · exact ih fun l' hl' => hlines l' (List.mem_cons_of_mem l hl')

end Fits

/-! ## What may be repeated -/

/-- The widths of the texts a built-in directive repeats: the argument it
refuses, and for `-rwhois` the identifier. -/
def Builtin.Short (width : Nat) (args : Str) : Builtin → Prop
  | .holdConnect => switchArg args = none → byteLen (trim args) + 52 ≤ width
  | .forward => switchArg args = none → byteLen (trim args) + 48 ≤ width
  | .limit => parseUsize (trim args) = none → byteLen args + 46 ≤ width
  | .display => trim args ≠ [] → eqIgnoreAsciiCase (trim args) "dump".toList = false →
      byteLen (trim args) + 48 ≤ width
  | .rwhois => byteLen (trim args) + 18 ≤ width
  | _ => True

instance (width : Nat) (args : Str) : (b : Builtin) → Decidable (b.Short width args)
  | .holdConnect => inferInstanceAs (Decidable
      (Builtin.switchArg args = none → byteLen (trim args) + 52 ≤ width))
  | .forward => inferInstanceAs (Decidable
      (Builtin.switchArg args = none → byteLen (trim args) + 48 ≤ width))
  | .limit => inferInstanceAs (Decidable
      (parseUsize (trim args) = none → byteLen args + 46 ≤ width))
  | .display => inferInstanceAs (Decidable (trim args ≠ [] →
      eqIgnoreAsciiCase (trim args) "dump".toList = false → byteLen (trim args) + 48 ≤ width))
  | .rwhois => inferInstanceAs (Decidable (byteLen (trim args) + 18 ≤ width))
  | .quit | .status | .directiveList | .cls | .schema | .soa | .xfer | .register | .security
  | .notify => isTrue trivial

/-- A directive that is not there is refused with its name. -/
def Request.Short (width : Nat) : Request → Prop
  | .directive name args =>
      match Builtin.ofName name with
      | some b => b.Short width args
      | none => byteLen name + 38 ≤ width
  | _ => True

instance (width : Nat) : (req : Request) → Decidable (req.Short width)
  | .directive name args =>
      match h : Builtin.ofName name with
      | some b => decidable_of_iff (b.Short width args) (by simp [Request.Short, h])
      | none => decidable_of_iff (byteLen name + 38 ≤ width) (by simp [Request.Short, h])
  | .empty | .query _ | .spool _ => isTrue trivial

/-- The line of a protocol error fits. -/
def Error.Narrow (width : Nat) : Error → Prop
  | .protocol code message => byteLen (Terminator.error code (some message)).line + 2 ≤ width
  | _ => True

/-- A handler that writes nothing. If it fails, the line of its error
fits. -/
def HandlerFuture.Silent (width : Nat) (f : HandlerFuture (ResponseWriter × ω)) : Prop :=
  ∀ out world, (f (out, world)).2.1 = out ∧ ∀ e, (f (out, world)).1 = .error e → e.Narrow width

structure RegisterHandler.Silent (width : Nat) (h : RegisterHandler ω) : Prop where
  begin : ∀ action email args world e,
    (h.begin action email args world).1 = .error e → e.Narrow width
  acceptLine : ∀ line world e, (h.acceptLine line world).1 = .error e → e.Narrow width
  finish : HandlerFuture.Silent width h.finish

/-- An auth handler that leaves the session alone as well. -/
def AuthHandler.Silent (width : Nat) (h : AuthHandler ω) : Prop :=
  ∀ args session out world,
    (h.authenticate args (session, out, world)).2.1 = session ∧
      (h.authenticate args (session, out, world)).2.2.1 = out ∧
      ∀ e, (h.authenticate args (session, out, world)).1 = .error e → e.Narrow width

/-- No handler of the context writes anything. -/
structure ServerContext.Silent (ctx : ServerContext ω) : Prop where
  query : ∀ h ∈ ctx.query, ∀ q, (h.handle q).Silent ctx.maxLine
  cls : ∀ p ∈ ctx.cls, ∀ area classes, (p.list area classes).Silent ctx.maxLine
  schema : ∀ p ∈ ctx.schema, ∀ area classes, (p.list area classes).Silent ctx.maxLine
  soa : ∀ p ∈ ctx.soa, ∀ areas, (p.list areas).Silent ctx.maxLine
  xfer : ∀ p ∈ ctx.xfer, ∀ args, (p.xfer args).Silent ctx.maxLine
  register : ∀ h ∈ ctx.register, h.Silent ctx.maxLine
  referral : ∀ p ∈ ctx.referral, ∀ q, (p.referrals q).Silent ctx.maxLine
  auth : ∀ h ∈ ctx.auth, h.Silent ctx.maxLine

/-! ## What a call keeps -/

/-- The texts of a session that `-status` prints. -/
structure Session.Narrow (width : Nat) (s : Session) : Prop where
  hitLimit : s.hitLimit < UInt64.size
  display : s.display = "dump".toList
  clientVendorId : ∀ v ∈ s.clientVendorId, byteLen v + 18 ≤ width

structure Env.Narrow (width : Nat) (env : Env ω) : Prop where
  session : env.session.Narrow width
  out : Fits width env.out.buf

/-- The call writes lines that fit, whether it succeeds or fails. -/
abbrev KeepsNarrow {α : Type} (width : Nat) (x : Exec (Env ω) Error α) : Prop :=
  Exec.Keeps (Env.Narrow width) (Error.Narrow width) x

section Calls

variable {width : Nat}

theorem KeepsNarrow.emit (op : WriterOp) (h : byteLen op.line + 2 ≤ width) :
    KeepsNarrow width (Env.emit op.run : Exec (Env ω) Error Unit) := by
  apply Exec.Keeps.modify
  intro env henv
  refine ⟨henv.session, ?_⟩
  show Fits width (op.run env.out).buf
  rw [WriterOp.run_eq]
  exact henv.out.append (.line h)

theorem KeepsNarrow.write {f : HandlerFuture (ResponseWriter × ω)} (h : f.Silent width) :
    KeepsNarrow width (Env.write f) := by
  apply Exec.Keeps.callOn
  intro env henv
  obtain ⟨hout, herr⟩ := h env.out env.world
  refine ⟨⟨henv.session, ?_⟩, herr⟩
  show Fits width (f (env.out, env.world)).2.1.buf
  rw [hout]
  exact henv.out

theorem KeepsNarrow.ask {f : HandlerFuture ω}
    (h : ∀ world e, (f world).1 = .error e → e.Narrow width) : KeepsNarrow width (Env.ask f) := by
  apply Exec.Keeps.callOn
  intro env henv
  exact ⟨⟨henv.session, henv.out⟩, h env.world⟩

theorem KeepsNarrow.setSession {f : Session → Session}
    (h : ∀ s : Session, s.Narrow width → (f s).Narrow width) :
    KeepsNarrow width (Env.setSession f : Exec (Env ω) Error Unit) := by
  apply Exec.Keeps.modify
  intro env henv
  exact ⟨h _ henv.session, henv.out⟩

/-- A change of what `-status` does not print. -/
theorem KeepsNarrow.setUnprinted {f : Session → Session}
    (h : ∀ s : Session, (f s).hitLimit = s.hitLimit ∧ (f s).display = s.display ∧
      (f s).clientVendorId = s.clientVendorId) :
    KeepsNarrow width (Env.setSession f : Exec (Env ω) Error Unit) := by
  refine KeepsNarrow.setSession fun s hs => ?_
  obtain ⟨hlimit, hdisplay, hvendor⟩ := h s
  constructor
  · rw [hlimit]
    exact hs.hitLimit
  · rw [hdisplay]
    exact hs.display
  · rw [hvendor]
    exact hs.clientVendorId

theorem byteLen_tagLine_le (tok body : Str) :
    byteLen (tagLine tok body) ≤ byteLen tok + 1 + byteLen body := by
  have hblank : (' ' : Char).utf8Size = 1 := by decide
  unfold tagLine
  split
  · simp
    omega
  · simp [hblank]
    omega

/-- Code, message and detail of an error, with what stands between them
and the terminator. -/
theorem Error.Narrow.protocol {code : ResponseCode} {message : Str}
    (hcode : byteLen (displayPadded 3 code.code.toNat) = 3)
    (h : byteLen code.message + byteLen message + 15 ≤ width) :
    (Error.protocol code message).Narrow width := by
  have htok : byteLen "%error".toList = 6 := by decide
  have hsep : byteLen ": ".toList = 2 := by decide
  have hblank : (' ' : Char).utf8Size = 1 := by decide
  have hdetail : byteLen (detailText (some message)) ≤ byteLen message + 2 := by
    have htext : detailText (some message) =
        if message = [] then [] else ": ".toList ++ message := by
      cases message <;> rfl
    rw [htext]
    split
    · exact Nat.zero_le _
    · rw [byteLen_append, hsep]
      omega
  have hline := byteLen_tagLine_le "%error".toList (errorText code (some message))
  have htext : byteLen (errorText code (some message)) =
      3 + (1 + (byteLen code.message + byteLen (detailText (some message)))) := by
    rw [errorText, byteLen_append, byteLen_cons, byteLen_append, hcode, hblank]
  show byteLen (tagLine "%error".toList (errorText code (some message))) + 2 ≤ width
  omega

theorem Error.Narrow.invalidSyntax {message : Str} (h : byteLen message + 39 ≤ width) :
    (Error.protocol .INVALID_DIRECTIVE_SYNTAX message).Narrow width := by
  have hmessage : byteLen ResponseCode.INVALID_DIRECTIVE_SYNTAX.message = 24 := by decide
  exact .protocol (by decide) (by omega)

theorem Error.Narrow.notAvailable {message : Str} (h : byteLen message + 38 ≤ width) :
    (Error.protocol .DIRECTIVE_NOT_AVAILABLE message).Narrow width := by
  have hmessage : byteLen ResponseCode.DIRECTIVE_NOT_AVAILABLE.message = 23 := by decide
  exact .protocol (by decide) (by omega)

end Calls

namespace Builtin

variable {ctx : ServerContext ω} {width : Nat} {args : Str}

/-! ## The built-in directives -/

theorem switch_narrow {name : Str} {set : Bool → Session → Session}
    (hset : ∀ on, KeepsNarrow width (Env.setSession (set on) : Exec (Env ω) Error Unit))
    (hshort : switchArg args = none → byteLen name + byteLen (trim args) + 41 ≤ width) :
    KeepsNarrow width (switch name set args : Exec (Env ω) Error DirectiveOutcome) := by
  have hother := byteLen_toAsciiLowercase (trim args)
  have hsep : byteLen ": ".toList = 2 := by decide
  unfold switchArg at hshort
  unfold switch
  generalize toAsciiLowercase (trim args) = other at hother hshort
  simp only at hshort ⊢
  split
  · exact (hset true).bind fun _ => .pure _
  split
  · exact (hset false).bind fun _ => .pure _
  · rename_i hon hoff
    rw [if_neg hon, if_neg hoff] at hshort
    have hargs := hshort rfl
    refine .throw (.invalidSyntax ?_)
    rw [byteLen_append, byteLen_append, hsep, hother]
    omega

theorem Limit.narrow (hshort : parseUsize (trim args) = none → byteLen args + 46 ≤ width) :
    KeepsNarrow width (Limit.run args : Exec (Env ω) Error DirectiveOutcome) := by
  have hword : byteLen "limit: ".toList = 7 := by decide
  unfold Limit.run
  cases hparse : parseUsize (trim args) with
  | none =>
      have hargs := hshort hparse
      refine .throw (.invalidSyntax ?_)
      rw [byteLen_append, hword]
      omega
  | some n =>
      refine Exec.Keeps.bind (KeepsNarrow.setSession fun s hs => ?_) fun _ => .pure _
      exact ⟨lt_of_parseUsize hparse, hs.display, hs.clientVendorId⟩

/-- A tagged line in words of the server. -/
theorem byteLen_tagged_le (tag : Tag) (body : Str) :
    byteLen (WriterOp.tagged tag body).line + 2 ≤ byteLen body + 13 := by
  have hline := byteLen_tagLine_le tag.asStr body
  have htag : byteLen tag.asStr ≤ 10 := by cases tag <;> decide
  show byteLen (tagLine tag.asStr body) + 2 ≤ _
  omega

theorem rwhois_narrow (hbanner : byteLen ctx.banner.toLine + 2 ≤ width)
    (hshort : byteLen (trim args) + 18 ≤ width) : KeepsNarrow width (Rwhois.run ctx args) := by
  unfold Rwhois.run
  refine Exec.Keeps.bind (KeepsNarrow.setSession fun s hs => ?_) fun _ => ?_
  · split
    · exact hs
    · -- the identifier is kept for `-status`, which prints it
      refine ⟨hs.hitLimit, hs.display, ?_⟩
      rintro v ⟨⟩
      exact hshort
  · refine Exec.Keeps.bind (Exec.Keeps.modify fun env henv => ⟨henv.session, ?_⟩) fun _ => .pure _
    show Fits width (env.out.rawLine ctx.banner.toLine).buf
    rw [ResponseWriter.rawLine, ResponseWriter.put_put]
    exact henv.out.append (.line hbanner)

section Words

variable (hwidth : 76 ≤ width)

include hwidth

theorem endBlock_narrow (tag : Tag) :
    KeepsNarrow width (Env.emit (·.endBlock tag) : Exec (Env ω) Error Unit) := by
  have hline := byteLen_tagged_le tag []
  refine KeepsNarrow.emit (.endBlock tag) ?_
  show byteLen (WriterOp.tagged tag []).line + 2 ≤ width
  rw [byteLen_nil] at hline
  omega

theorem tagged_narrow (tag : Tag) {body : Str} (hbody : byteLen body ≤ 63) :
    KeepsNarrow width (Env.emit (·.tagged tag body) : Exec (Env ω) Error Unit) := by
  have hline := byteLen_tagged_le tag body
  exact KeepsNarrow.emit (.tagged tag body) (by omega)

theorem Display.narrow (hshort : trim args ≠ [] →
    eqIgnoreAsciiCase (trim args) "dump".toList = false → byteLen (trim args) + 48 ≤ width) :
    KeepsNarrow width (Display.run args : Exec (Env ω) Error DirectiveOutcome) := by
  have hword : byteLen "display: ".toList = 9 := by decide
  unfold Display.run
  generalize trim args = name at hshort
  simp only
  split
  · apply Exec.Keeps.get_bind
    intro env henv
    have hbody : byteLen ("name:".toList ++ env.session.display) ≤ 63 := by
      rw [henv.session.display]
      decide
    exact (tagged_narrow hwidth .display hbody).bind fun _ =>
      (endBlock_narrow hwidth .display).bind fun _ => .pure _
  · rename_i hnil
    split
    · refine Exec.Keeps.bind (KeepsNarrow.setSession fun s hs => ?_) fun _ => .pure _
      exact ⟨hs.hitLimit, rfl, hs.clientVendorId⟩
    · rename_i hdump
      have hname := hshort hnil (by simpa using hdump)
      refine .throw (.invalidSyntax ?_)
      rw [byteLen_append, hword]
      omega

theorem Status.narrow : KeepsNarrow width (Status.run : Exec (Env ω) Error DirectiveOutcome) := by
  have hswitch : ∀ b, byteLen ("hold:".toList ++ onOff b) ≤ 63 ∧
      byteLen ("forward:".toList ++ onOff b) ≤ 63 := by
    decide
  apply Exec.Keeps.get_bind
  intro env henv
  have hlimit : byteLen ("limit:".toList ++ RustStd.display env.session.hitLimit) ≤ 63 := by
    have hword : byteLen "limit:".toList = 6 := by decide
    have hdigits := byteLen_display_le henv.session.hitLimit
    rw [byteLen_append, hword]
    omega
  have hdisplay : byteLen ("display:".toList ++ env.session.display) ≤ 63 := by
    rw [henv.session.display]
    decide
  -- the one line that is not in words of the server
  have hcontact : byteLen (WriterOp.tagged .status
      ("contact:".toList ++ env.session.clientVendorId.getD [])).line + 2 ≤ width := by
    have hword : byteLen "contact:".toList = 8 := by decide
    have htag : byteLen Tag.status.asStr = 7 := by decide
    have hline := byteLen_tagLine_le Tag.status.asStr
      ("contact:".toList ++ env.session.clientVendorId.getD [])
    rw [byteLen_append, hword, htag] at hline
    show byteLen (tagLine Tag.status.asStr _) + 2 ≤ width
    cases hv : env.session.clientVendorId with
    | none =>
        rw [hv] at hline
        simp only [Option.getD_none, byteLen_nil] at hline ⊢
        omega
    | some v =>
        have hvendor := henv.session.clientVendorId v hv
        rw [hv] at hline
        simp only [Option.getD_some] at hline ⊢
        omega
  exact
    (tagged_narrow hwidth .status hlimit).bind fun _ =>
    (tagged_narrow hwidth .status (hswitch env.session.holdConnect).1).bind fun _ =>
    (tagged_narrow hwidth .status (hswitch env.session.forward).2).bind fun _ =>
    (tagged_narrow hwidth .status hdisplay).bind fun _ =>
    (KeepsNarrow.emit (.tagged .status _) hcontact).bind fun _ =>
    (endBlock_narrow hwidth .status).bind fun _ => .pure _

theorem DirectiveList.narrow (hdir : ctx.directives = .withBuiltins) :
    KeepsNarrow width (DirectiveList.run ctx) := by
  have hname : ∀ b : Builtin, byteLen ("Directive:".toList ++ b.name) ≤ 63 := by
    intro b
    rw [byteLen_append, show byteLen "Directive:".toList = 10 by decide]
    cases b <;> (dsimp only [name]; rw [String.toList_ofList]; decide)
  have hdescription : ∀ b : Builtin, byteLen ("Description:".toList ++ b.description) ≤ 63 := by
    intro b
    rw [byteLen_append, show byteLen "Description:".toList = 12 by decide]
    cases b <;> (dsimp only [description]; rw [String.toList_ofList]; decide)
  refine Exec.Keeps.bind (.forM fun name _ => ?_) fun _ =>
    (endBlock_narrow hwidth .directive).bind fun _ => .pure _
  -- only built-in directives are listed, whatever the order of the names
  unfold DirectiveList.entry
  rw [hdir, Registry.get_withBuiltins]
  cases Builtin.ofName name with
  | none => exact .pure ()
  | some b =>
      refine (tagged_narrow hwidth .directive (hname b)).bind fun _ => ?_
      split
      · exact .pure ()
      · exact tagged_narrow hwidth .directive (hdescription b)

theorem provided_narrow {π : Type} {name : Str} (hname : byteLen name ≤ 38) (tag : Tag)
    {provider : Option π} {list : π → HandlerFuture (ResponseWriter × ω)}
    (h : ∀ p ∈ provider, (list p).Silent width) :
    KeepsNarrow width (provided name tag (provider.map list)) := by
  cases provider with
  | none => exact .throw (.notAvailable (by omega))
  | some p =>
      exact (KeepsNarrow.write (h p rfl)).bind fun _ =>
        (endBlock_narrow hwidth tag).bind fun _ => .pure _

/-- A refusal in words of the server. -/
theorem refuse_narrow {α : Type} {code : ResponseCode} {message : Str}
    (hcode : byteLen (displayPadded 3 code.code.toNat) = 3)
    (h : byteLen code.message + byteLen message ≤ 61) :
    KeepsNarrow width (Exec.throw (.protocol code message) : Exec (Env ω) Error α) :=
  .throw (Error.Narrow.protocol hcode (by omega))

theorem Security.narrow (hauth : ∀ h ∈ ctx.auth, h.Silent width) :
    KeepsNarrow width (Security.run ctx args) := by
  unfold Security.run
  cases hsome : ctx.auth with
  | none => exact refuse_narrow hwidth (by decide) (by decide)
  | some h =>
      refine Exec.Keeps.bind (.callOn fun env henv => ?_) fun _ => .pure _
      obtain ⟨hsession, hout, herr⟩ := hauth h hsome args env.session env.out env.world
      refine ⟨⟨?_, ?_⟩, herr⟩
      · rw [hsession]
        exact henv.session
      · rw [hout]
        exact henv.out

theorem Register.narrow (hregister : ∀ h ∈ ctx.register, h.Silent width) :
    KeepsNarrow width (Register.run ctx args) := by
  unfold Register.run
  simp only
  cases hreg : ctx.register with
  | none => exact refuse_narrow hwidth (by decide) (by decide)
  | some h =>
      have hh := hregister h hreg
      simp only
      split
      · unfold Register.on
        simp only
        split
        · exact refuse_narrow hwidth (by decide) (by decide)
        · refine (KeepsNarrow.ask fun world e he => hh.begin _ _ _ world e he).bind fun _ => ?_
          exact Exec.Keeps.bind (KeepsNarrow.setUnprinted fun s => ⟨rfl, rfl, rfl⟩) fun _ => .pure _
      split
      · refine (KeepsNarrow.write hh.finish).bind fun _ => ?_
        exact Exec.Keeps.bind (KeepsNarrow.setUnprinted fun s => ⟨rfl, rfl, rfl⟩) fun _ => .pure _
      · exact refuse_narrow hwidth (by decide) (by decide)

end Words

/-- **Every built-in directive writes lines that fit**, if the texts it
repeats are short. -/
theorem run_narrow (hdir : ctx.directives = .withBuiltins) (hctx : ctx.Silent)
    (hwidth : 76 ≤ ctx.maxLine) (hbanner : byteLen ctx.banner.toLine + 2 ≤ ctx.maxLine)
    {b : Builtin} (hshort : b.Short ctx.maxLine args) : KeepsNarrow ctx.maxLine (b.run ctx args) := by
  cases b with
  | quit => exact .pure _
  | notify => exact .pure _
  | limit => exact Limit.narrow hshort
  | display => exact Display.narrow hwidth hshort
  | status => exact Status.narrow hwidth
  | rwhois => exact rwhois_narrow hbanner hshort
  | directiveList => exact DirectiveList.narrow hwidth hdir
  | register => exact Register.narrow hwidth hctx.register
  | security => exact Security.narrow hwidth hctx.auth
  | holdConnect =>
      have hword : byteLen "holdconnect".toList = 11 := by decide
      refine switch_narrow (fun _ => .setUnprinted fun s => ⟨rfl, rfl, rfl⟩) fun h => ?_
      have hargs := hshort h
      omega
  | forward =>
      have hword : byteLen "forward".toList = 7 := by decide
      refine switch_narrow (fun _ => .setUnprinted fun s => ⟨rfl, rfl, rfl⟩) fun h => ?_
      have hargs := hshort h
      omega
  | cls => exact provided_narrow hwidth (by decide) _ fun p hp => hctx.cls p hp _ _
  | schema => exact provided_narrow hwidth (by decide) _ fun p hp => hctx.schema p hp _ _
  | soa => exact provided_narrow hwidth (by decide) _ fun p hp => hctx.soa p hp _
  | xfer => exact provided_narrow hwidth (by decide) _ fun p hp => hctx.xfer p hp _

end Builtin

namespace Server

variable {ctx : ServerContext ω}

/-! ## One round -/

theorem parse_narrow {s : Str} (hascii : IsAscii s) {width : Nat} (hwidth : 76 ≤ width) :
    (Query.parse s).Within (Error.Narrow width) := by
  have hmessages : ∀ message ∈ Parser.refusals, byteLen message.toList ≤ 41 := by decide
  have hcode : byteLen ResponseCode.INVALID_QUERY_SYNTAX.message = 20 := by decide
  have hreturns := Query.parse_returns hascii
  cases hparse : Query.parse s with
  | ok q => trivial
  | err e =>
      obtain ⟨message, hmem, rfl⟩ := Parser.refuses_parse hparse
      have hmessage := hmessages message hmem
      exact Error.Narrow.protocol (by decide) (by rw [hcode]; omega)
  | panic | diverge =>
      rw [hparse] at hreturns
      cases hreturns

/-- **Every line is answered by lines that fit**, if the texts it makes
the server repeat are short. -/
theorem dispatch_narrow (hdir : ctx.directives = .withBuiltins) (hctx : ctx.Silent)
    (hwidth : 76 ≤ ctx.maxLine) (hbanner : byteLen ctx.banner.toLine + 2 ≤ ctx.maxLine)
    {line : Str} (hline : RwhoisCodec.Decoded line) {spooling : Bool}
    (hshort : (Request.read line spooling).Short ctx.maxLine) :
    KeepsNarrow ctx.maxLine (dispatch ctx (Request.read line spooling)) := by
  cases hreq : Request.read line spooling with
  | empty => exact .pure _
  | spool text =>
      rw [dispatch, dispatchSpool]
      cases hreg : ctx.register with
      | none => exact Builtin.refuse_narrow hwidth (by decide) (by decide)
      | some h =>
          exact (KeepsNarrow.ask ((hctx.register h hreg).acceptLine text)).bind fun _ => .pure _
  | query text =>
      obtain rfl := Request.read_query hreq
      rw [dispatch, dispatchQuery]
      cases hquery : ctx.query with
      | none => exact Builtin.refuse_narrow hwidth (by decide) (by decide)
      | some h =>
          -- a refusal of the parser does not repeat the query
          refine (Exec.Keeps.ofOutcome (parse_narrow hline.isAscii hwidth)).bind fun q => ?_
          refine (KeepsNarrow.write (hctx.query h hquery q)).bind fun _ => ?_
          refine Exec.Keeps.bind ?_ fun _ => .pure _
          unfold appendReferrals
          cases href : ctx.referral with
          | none => exact .pure ()
          | some p => exact KeepsNarrow.write (hctx.referral p href q)
  | directive name args =>
      rw [hreq] at hshort
      rw [dispatch, dispatchDirective_eq hdir]
      cases hb : Builtin.ofName name with
      | none =>
          simp only [Request.Short, hb] at hshort
          exact .throw (.notAvailable hshort)
      | some b =>
          simp only [Request.Short, hb] at hshort
          exact (Builtin.run_narrow hdir hctx hwidth hbanner hshort).bind fun _ => .pure _

/-- The terminator of a reply fits. -/
theorem terminator_fits {width : Nat} (hwidth : 76 ≤ width) {outcome : Except Error Outcome}
    (h : (RustStd.Outcome.ofExcept outcome).Within (Error.Narrow width)) {last : Terminator}
    (hlast : Reply.terminator outcome = some last) : byteLen last.line + 2 ≤ width := by
  have hok : byteLen Terminator.ok.line = 3 := by decide
  have hother : byteLen (Terminator.error .UNIDENTIFIED_ERROR none).line = 29 := by decide
  cases outcome with
  | ok o => cases o <;> cases hlast <;> (rw [hok]; omega)
  | error e =>
      cases e with
      | protocol code message =>
          cases hlast
          exact h
      | _ =>
          cases hlast
          rw [hother]
          omega

theorem reply_fits {width : Nat} {reply : Reply} (hbuf : Fits width reply.buf)
    (hlast : ∀ last, reply.last = some last → byteLen last.line + 2 ≤ width) :
    Fits width reply.bytes := by
  unfold Reply.bytes
  cases h : reply.last with
  | none => exact hbuf
  | some last =>
      simp only [Terminator.write_eq]
      exact hbuf.append (.line (hlast last h))

section Runs

variable (hdir : ctx.directives = .withBuiltins) (hctx : ctx.Silent) (hwidth : 76 ≤ ctx.maxLine)
  (hbanner : byteLen ctx.banner.toLine + 2 ≤ ctx.maxLine)

include hdir hctx hwidth hbanner

/-- **One round.** -/
theorem round_narrow {r : Round (Env ω) Str Reply} (hdoes : (connection ctx).Does r)
    (hinput : RwhoisCodec.Decoded r.input)
    (hshort : (Request.read r.input r.before.session.isSpooling).Short ctx.maxLine)
    (hbefore : r.before.Narrow ctx.maxLine) :
    r.after.Narrow ctx.maxLine ∧ Fits ctx.maxLine r.result.bytes := by
  obtain ⟨outcome, env', hrun, hafter, hresult⟩ := does_connection hdoes
  have hkeeps := dispatch_narrow hdir hctx hwidth hbanner hinput hshort
    { r.before with out := .new } ⟨hbefore.session, .nil⟩
  rw [hrun] at hkeeps
  obtain ⟨henv', hwithin⟩ := hkeeps
  rw [hafter, hresult]
  refine ⟨⟨henv'.session, .nil⟩, reply_fits henv'.out ?_⟩
  intro last hlast
  exact terminator_fits hwidth hwithin hlast

/-- **All rounds** of a connection. -/
theorem rounds_fit {lines : List Str} (hlines : ∀ line ∈ lines, RwhoisCodec.Decoded line)
    {env : Env ω} (henv : env.Narrow ctx.maxLine)
    (hshort : ∀ r ∈ (connection ctx).rounds env lines,
      (Request.read r.input r.before.session.isSpooling).Short ctx.maxLine) :
    Fits ctx.maxLine (((connection ctx).rounds env lines).flatMap fun r => r.result.bytes) := by
  -- the identifier of an earlier line may be printed by a later one, so
  -- the sessions in between have to be followed
  have hround : ∀ r ∈ (connection ctx).rounds env lines, r.before.Narrow ctx.maxLine →
      r.after.Narrow ctx.maxLine ∧ Fits ctx.maxLine r.result.bytes := by
    intro r hr hbefore
    obtain ⟨hdoes, hinput⟩ := Loop.does_of_mem_rounds hr
    exact round_narrow hdir hctx hwidth hbanner hdoes (hlines r.input hinput) (hshort r hr) hbefore
  have hvisited : ∀ env' ∈ (connection ctx).visited env lines, env'.Narrow ctx.maxLine :=
    Loop.visited_of_keeps (fun r hr _ hbefore => (hround r hr hbefore).1) henv
  apply Fits.flatMap
  intro r hr
  exact (hround r hr (hvisited r.before (Loop.before_mem_visited hr))).2

end Runs

theorem start_narrow (ctx : ServerContext ω) (peer : SocketAddr) (world : ω) (width : Nat) :
    (start ctx peer world).Narrow width where
  session := ⟨(by decide : 0 < UInt64.size), rfl, by rintro v ⟨⟩⟩
  out := .nil

/-! ## A whole connection -/

/-- **The server sends no line that its own codec would refuse for its
length**, if the limit leaves room for the server's own words and the
texts it repeats are short: all lines of the connection fit, so a peer
with the same limit decodes all of it, in whatever chunks it comes. -/
theorem lines_within_limit (ctx : ServerContext ω) (hdir : ctx.directives = .withBuiltins)
    (hctx : ctx.Silent) (hwidth : 76 ≤ ctx.maxLine) {greeting : Bytes}
    (hencode : (RwhoisCodec.withMaxLine ctx.maxLine).encode (utf8 ctx.banner.toLine) [] =
      (.ok (), greeting)) (peer : SocketAddr) (world : ω) (inbound : Inbound)
    (hlines : ∀ line ∈ inbound.lines, RwhoisCodec.Decoded line)
    (hshort : ∀ r ∈ (connection ctx).rounds (start ctx peer world) inbound.lines,
      (Request.read r.input r.before.session.isSpooling).Short ctx.maxLine) :
    let t := runConnection ctx peer world inbound
    Fits ctx.maxLine (t.greeting ++ t.afterBanner) ∧
      ∀ chunks : List Bytes, chunks.flatten = t.greeting ++ t.afterBanner →
        ∀ max, .err (.lineTooLong max) ∉ RwhoisCodec.feed (.withMaxLine ctx.maxLine, []) chunks := by
  intro t
  have hgreeting : byteLen ctx.banner.toLine + 2 ≤ ctx.maxLine ∧
      greeting = utf8 (ctx.banner.toLine ++ crlf) := by
    obtain ⟨⟨hfits, -, -⟩, hbytes⟩ := RwhoisCodec.encode_ok hencode
    rw [length_utf8] at hfits
    rw [utf8_append, utf8_crlf]
    exact ⟨hfits, hbytes⟩
  obtain ⟨hbanner, rfl⟩ := hgreeting
  have hrounds := rounds_fit hdir hctx hwidth hbanner hlines (start_narrow ctx peer world _) hshort
  have hidle : Fits ctx.maxLine (writeError [] .IDLE_TIME_EXCEEDED none) := by
    have hline : byteLen (Terminator.error .IDLE_TIME_EXCEEDED none).line = 29 := by decide
    rw [show writeError [] .IDLE_TIME_EXCEEDED none = _ from
      Terminator.write_eq (.error .IDLE_TIME_EXCEEDED none) []]
    exact .line (by rw [hline]; omega)
  have hfits : Fits ctx.maxLine (t.greeting ++ t.afterBanner) := by
    have ht : t = _ := runConnection_eq hencode peer world inbound
    rw [ht, Transcript.afterBanner]
    cases ((connection ctx).run (start ctx peer world) inbound.lines).2 with
    | waiting env =>
        cases inbound.ending with
        | idle => exact (Fits.line hbanner).append (hrounds.append hidle)
        | _ => exact (Fits.line hbanner).append (hrounds.append .nil)
    | _ => exact (Fits.line hbanner).append (hrounds.append .nil)
  refine ⟨hfits, fun chunks hchunks max => ?_⟩
  rw [RwhoisCodec.feed_start, hchunks]
  exact hfits.lineTooLong_notMem max

/-- A refused argument, an identifier and the report of it, and a client
that falls silent. -/
theorem lines_within_limit_status :
    let ctx : ServerContext Unit := .new
    let inbound : Inbound :=
      { lines := ["-limit x".toList, "-rwhois me".toList, "-status".toList], ending := .idle }
    let t := runConnection ctx ⟨[], 0⟩ () inbound
    t.rounds.length = 3 ∧ Fits ctx.maxLine (t.greeting ++ t.afterBanner) := by
  intro ctx inbound t
  have hctx : ctx.Silent := by
    constructor <;> rintro h ⟨⟩
  have hlines : ∀ line ∈ inbound.lines, RwhoisCodec.Decoded line :=
    RwhoisCodec.Decoded.of_unlines 512 (by decide)
  refine ⟨by decide, ?_⟩
  exact (lines_within_limit ctx rfl hctx (by decide) (Prod.ext (by decide +kernel) rfl) _ _ inbound
    hlines (by decide +kernel)).1

/-- A line that the decoder takes, and a refusal that it does not take. -/
theorem refusal_too_long :
    let ctx : ServerContext Unit := { ServerContext.new with maxLine := 80 }
    let sent := utf8 "-limit xxxxxxxxxxxxxxxxxxxxxxxxxxxxxxxxxxxxxxxx\r\n".toList
    let t := runConnection ctx ⟨[], 0⟩ () (.ofStream ctx.maxLine [sent] false)
    t.rounds.length = 1 ∧ t.result = .ok () ∧
      .err (.lineTooLong 80) ∈
        RwhoisCodec.feed (.withMaxLine ctx.maxLine, []) [t.greeting ++ t.afterBanner] := by
  intro ctx sent t
  have hrun : t.rounds.length = 1 ∧ t.result = .ok () := by decide +kernel
  refine ⟨hrun.1, hrun.2, ?_⟩
  rw [RwhoisCodec.feed_start]
  decide +kernel

end Server

end Rwhois
