import Rwhois.Wire.Blocks
import Rwhois.Directive.Framing
import Rwhois.Server.Lookup

/-!
# Directive — Listing

The reply to `-directive` as a client reads it. RFC 2167 (3.3.2) makes it
a list of records, one for each directive, and each record ends with an
empty `%directive` line.

The directives that are listed, their lines and their order are as they
should be for every registry. The end line is not: `DirectiveList::run`
writes it once, behind the loop. So a client that cuts the lines at the
end lines gets ONE record, which is the right list if and only if the
server has one directive.
-/

namespace Rwhois

open RustStd

variable {ω : Type}

/-! ## What a client should read -/

/-- The lines of a response, classified. -/
def ResponseWriter.readBack (self : ResponseWriter) : Option (List ResponseLine) :=
  received self.buf

/-- The lines up to each end line of `t`, and the lines behind the last
end line. -/
def cutRecords (t : Tag) : List ResponseLine → List (List ResponseLine) × List ResponseLine
  | [] => ([], [])
  | l :: ls =>
      if l = .taggedEnd t then
        ([] :: (cutRecords t ls).1, (cutRecords t ls).2)
      else
        match cutRecords t ls with
        | ([], rest) => ([], l :: rest)
        | (r :: rs, rest) => ((l :: r) :: rs, rest)

/-- The record of one directive, without its end line. -/
def Directive.record (d : Directive ω) : List ResponseLine :=
  .tagged .directive ("Directive:".toList ++ d.name) ::
    if d.description = [] then []
    else [.tagged .directive ("Description:".toList ++ d.description)]

/-- The directives that can be called, each once, in the order of their
lowercased names. -/
structure Lists (history ds : List (Directive ω)) : Prop where
  mem (d : Directive ω) : d ∈ ds ↔ lastRegistered history d.name = some d
  ascending : ds.Pairwise fun d e => strLt (toAsciiLowercase d.name) (toAsciiLowercase e.name)

/-- One record for each directive, and nothing behind the last one. -/
def IsListing (history : List (Directive ω))
    (cut : List (List ResponseLine) × List ResponseLine) : Prop :=
  ∃ ds, Lists history ds ∧ cut = (ds.map Directive.record, [])

theorem cutRecords_append_end {t : Tag} {ls : List ResponseLine}
    (h : ∀ l ∈ ls, l ≠ .taggedEnd t) : cutRecords t (ls ++ [.taggedEnd t]) = ([ls], []) := by
  induction ls with
  | nil =>
      rw [List.nil_append, cutRecords, if_pos rfl]
      rfl
  | cons l ls ih =>
      have hl := h l List.mem_cons_self
      rw [List.cons_append, cutRecords, if_neg hl, ih fun l hl => h l (List.mem_cons_of_mem _ hl)]

theorem Directive.record_ne_end {d : Directive ω} {l : ResponseLine} (h : l ∈ d.record) :
    l ≠ .taggedEnd .directive := by
  rw [Directive.record, List.mem_cons] at h
  rcases h with rfl | h
  · simp
  · split at h
    · cases h
    · rw [List.mem_singleton] at h
      simp [h]

/-! ## The directives that are listed -/

namespace Registry

/-- The names of `-directive`, sorted. -/
def names (self : Registry ω) : List Str :=
  (self.iter.map Prod.fst).insertionSort fun a b => strLe a b

def listed (self : Registry ω) : List (Directive ω) := self.names.filterMap self.get

theorem mem_names {self : Registry ω} {name : Str} :
    name ∈ self.names ↔ ∃ d, self.get name = some d := by
  have hmem : ∀ d, self.get name = some d ↔ ⟨name, d⟩ ∈ self.byName.entries :=
    fun d => AList.mem_lookup_iff
  rw [names, List.mem_insertionSort, iter, List.map_map, List.mem_map]
  constructor
  · rintro ⟨⟨name', d⟩, hentry, rfl⟩
    exact ⟨d, (hmem d).mpr hentry⟩
  · rintro ⟨d, hget⟩
    exact ⟨⟨name, d⟩, (hmem d).mp hget, rfl⟩

theorem names_ascending (self : Registry ω) : self.names.Pairwise fun a b => strLt a b := by
  have hsorted : self.names.Pairwise fun a b => strLe a b = true := List.pairwise_insertionSort _ _
  have hnodup : self.names.Nodup := by
    rw [names, (List.perm_insertionSort _ _).nodup_iff, iter, List.map_map]
    exact self.byName.nodupKeys
  exact (hsorted.and hnodup).imp fun h => strLt_of_strLe h.1 h.2

theorem lists_listed (history : List (Directive ω)) : Lists history (ofHistory history).listed where
  mem d := by
    rw [← get_eq_some_iff, listed, List.mem_filterMap]
    constructor
    · rintro ⟨name, -, hget⟩
      exact ⟨name, hget⟩
    · rintro ⟨name, hget⟩
      exact ⟨name, mem_names.mpr ⟨d, hget⟩, hget⟩
  ascending := by
    refine List.Pairwise.filterMap _ ?_ (names_ascending _)
    intro name name' hlt d hd e he
    rwa [← name_eq_of_get hd, ← name_eq_of_get he]

end Registry

/-! ## What is written -/

/-- A body that makes these writer calls and does nothing else. -/
def Writes (ops : List WriterOp) (x : Exec (Env ω) Error Unit) : Prop :=
  ∀ env, x.run env = (.ok (), { env with out := WriterOp.runAll ops env.out })

namespace Writes

variable {α : Type}

theorem nothing : Writes [] (pure () : Exec (Env ω) Error Unit) := fun _ => rfl

theorem emit (op : WriterOp) : Writes [op] (Env.emit op.run : Exec (Env ω) Error Unit) :=
  fun _ => rfl

theorem run_then {ops : List WriterOp} {x : Exec (Env ω) Error Unit} (hx : Writes ops x)
    (y : Exec (Env ω) Error α) (env : Env ω) :
    (x >>= fun _ => y).run env = y.run { env with out := WriterOp.runAll ops env.out } :=
  Exec.run_bind_ok (hx env) _

theorem andThen {ops ops' : List WriterOp} {x y : Exec (Env ω) Error Unit} (hx : Writes ops x)
    (hy : Writes ops' y) : Writes (ops ++ ops') (x >>= fun _ => y) := by
  intro env
  rw [hx.run_then, hy, WriterOp.runAll, WriterOp.runAll, WriterOp.runAll, List.foldl_append]

/-- A loop makes the calls of its rounds one after another. -/
theorem forM {f : α → Exec (Env ω) Error Unit} {ops : α → List WriterOp}
    (hf : ∀ a, Writes (ops a) (f a)) (xs : List α) : Writes (xs.flatMap ops) (xs.forM f) := by
  induction xs with
  | nil => exact nothing
  | cons a xs ih =>
      rw [List.flatMap_cons]
      exact (hf a).andThen ih

end Writes

namespace Directive

/-- The calls for one directive. -/
def recordOps (d : Directive ω) : List WriterOp :=
  .tagged .directive ("Directive:".toList ++ d.name) ::
    if d.description = [] then []
    else [.tagged .directive ("Description:".toList ++ d.description)]

theorem meaning_recordOps (d : Directive ω) : d.recordOps.map WriterOp.meaning = d.record := by
  rw [recordOps, record]
  split <;> rfl

theorem clean_recordOps {d : Directive ω} (hname : IsLine d.name) (hdesc : IsLine d.description) :
    ∀ op ∈ d.recordOps, op.Clean ∧ op.Readable := by
  have htagged : ∀ {key text : Str}, IsLine key → key.head? = some 'D' → IsLine text →
      (WriterOp.tagged .directive (key ++ text)).Clean ∧
        (WriterOp.tagged .directive (key ++ text)).Readable := by
    intro key text hkey hhead htext
    have hhead' : (key ++ text).head? = some 'D' := by rw [List.head?_append, hhead, Option.some_or]
    refine ⟨hkey.append htext, by decide, by decide, ?_, ?_⟩
    · intro hnil
      rw [hnil] at hhead'
      cases hhead'
    · rw [hhead']
      decide
  intro op hop
  rw [recordOps, List.mem_cons] at hop
  rcases hop with rfl | hop
  · exact htagged (by decide) (by decide) hname
  · split at hop
    · cases hop
    · rw [List.mem_singleton.mp hop]
      exact htagged (by decide) (by decide) hdesc

end Directive

namespace Builtin.DirectiveList

theorem entry_writes (ctx : ServerContext ω) (name : Str) :
    Writes ((ctx.directives.get name).toList.flatMap Directive.recordOps) (entry ctx name) := by
  unfold entry
  cases ctx.directives.get name with
  | none => exact .nothing
  | some d =>
      rw [Option.toList_some, List.flatMap_singleton, Directive.recordOps, ← List.singleton_append]
      refine Writes.andThen (.emit (.tagged .directive _)) ?_
      split
      · exact .nothing
      · exact .emit (.tagged .directive _)

/-- The calls of a whole run: the end line comes once. -/
def listingOps (ctx : ServerContext ω) : List WriterOp :=
  ctx.directives.listed.flatMap Directive.recordOps ++ [.endBlock .directive]

theorem run_eq (ctx : ServerContext ω) (env : Env ω) :
    (DirectiveList.run ctx).run env =
      (.ok .ok, { env with out := WriterOp.runAll (listingOps ctx) env.out }) := by
  have hloop := Writes.forM (entry_writes ctx) ctx.directives.names
  have hops : ctx.directives.names.flatMap
      (fun name => (ctx.directives.get name).toList.flatMap Directive.recordOps) =
        ctx.directives.listed.flatMap Directive.recordOps := by
    rw [Registry.listed, List.filterMap_eq_flatMap_toList, List.flatMap_assoc]
  rw [hops] at hloop
  rw [listingOps, WriterOp.runAll, List.foldl_append]
  exact (hloop.run_then _ env).trans ((Writes.emit (.endBlock .directive)).run_then _ _)

/-- What a client reads. -/
theorem readBack_listing {ctx : ServerContext ω}
    (h : ∀ d ∈ ctx.directives.listed, IsLine d.name ∧ IsLine d.description) :
    (WriterOp.runAll (listingOps ctx) .new).readBack =
      some (ctx.directives.listed.flatMap Directive.record ++ [.taggedEnd .directive]) := by
  have hops : ∀ op ∈ listingOps ctx, op.Clean ∧ op.Readable := by
    intro op hop
    rcases List.mem_append.mp hop with hop | hop
    · obtain ⟨d, hd, hop⟩ := List.mem_flatMap.mp hop
      exact Directive.clean_recordOps (h d hd).1 (h d hd).2 op hop
    · rw [List.mem_singleton.mp hop]
      exact ⟨trivial, by decide⟩
  obtain ⟨text, htext, hlines⟩ := WriterOp.lines_runAll fun op hop => (hops op hop).1
  rw [ResponseWriter.readBack, received, htext, Option.map_some, hlines, WriterOp.parse_lines hops]
  congr 1
  rw [listingOps, List.map_append, List.map_flatMap]
  simp only [Directive.meaning_recordOps]
  rfl

/-- All directives end up in one record. -/
theorem cutRecords_listing (ds : List (Directive ω)) :
    cutRecords .directive (ds.flatMap Directive.record ++ [.taggedEnd .directive]) =
      ([ds.flatMap Directive.record], []) := by
  apply cutRecords_append_end
  intro l hl
  obtain ⟨d, -, hl⟩ := List.mem_flatMap.mp hl
  exact Directive.record_ne_end hl

end Builtin.DirectiveList

/-- One record lists the directives if and only if there is one. -/
theorem isListing_singleton_iff {history ds : List (Directive ω)} (h : Lists history ds) :
    IsListing history ([ds.flatMap Directive.record], []) ↔
      ∃! d, lastRegistered history d.name = some d := by
  constructor
  · rintro ⟨es, hes, hcut⟩
    obtain ⟨d, rfl, -⟩ := List.map_eq_singleton_iff.mp (Prod.mk.inj hcut).1.symm
    refine ⟨d, (hes.mem d).mp List.mem_cons_self, fun e he => ?_⟩
    exact List.mem_singleton.mp ((hes.mem e).mpr he)
  · rintro ⟨d, hd, honly⟩
    have hall : ∀ e ∈ ds, e = d := fun e he => honly e ((h.mem e).mp he)
    have hds : ds = [d] := by
      match ds, h, hall with
      | [], h, _ => cases (h.mem d).mpr hd
      | [e], _, hall => rw [hall e List.mem_cons_self]
      | e :: e' :: ds, h, hall =>
          have hlt := (List.pairwise_cons.mp h.ascending).1 e' List.mem_cons_self
          rw [hall e List.mem_cons_self, hall e' (by simp)] at hlt
          exact absurd hlt (strLt_irrefl _)
    refine ⟨ds, h, ?_⟩
    rw [hds, List.flatMap_singleton, List.map_singleton]

/-- **What a client makes of `-directive`**: the lines are those of the
directives that can be called, in the order of their lowercased names; and
cut at the end lines they are one record for each directive if and only if
there is exactly one directive. -/
theorem directive_listing (ctx : ServerContext ω) (history : List (Directive ω))
    (hdir : ctx.directives = .ofHistory history)
    (hlines : ∀ d : Directive ω, lastRegistered history d.name = some d →
      IsLine d.name ∧ IsLine d.description)
    (env : Env ω) (hout : env.out = .new) :
    ∃ env' lines, (Builtin.run ctx [] .directiveList).run env = (.ok .ok, env') ∧
      env'.out.readBack = some lines ∧
      (∃ ds, Lists history ds ∧
        lines = ds.flatMap Directive.record ++ [.taggedEnd .directive]) ∧
      (IsListing history (cutRecords .directive lines) ↔
        ∃! d, lastRegistered history d.name = some d) := by
  have hlists := Registry.lists_listed history
  rw [← hdir] at hlists
  refine ⟨_, _, Builtin.DirectiveList.run_eq ctx env, ?_, ⟨_, hlists, rfl⟩, ?_⟩
  · show (WriterOp.runAll _ env.out).readBack = _
    rw [hout]
    exact Builtin.DirectiveList.readBack_listing fun d hd => hlines d ((hlists.mem d).mp hd)
  · rw [Builtin.DirectiveList.cutRecords_listing]
    exact isListing_singleton_iff hlists

theorem mem_of_lastRegistered {history : List (Directive ω)} {name : Str} {d : Directive ω}
    (h : lastRegistered history name = some d) : d ∈ history :=
  List.mem_reverse.mp (List.mem_of_find?_eq_some h)

theorem Builtin.isLine_directive (b : Builtin) :
    IsLine (b.directive : Directive ω).name ∧ IsLine (b.directive : Directive ω).description :=
  ⟨b.isLine_name, b.isLine_description⟩

/-- A server that has `-status` and no other directive. -/
theorem directive_listing_status :
    ∃ env' lines, (Builtin.run
        { (.new : ServerContext Unit) with directives := .ofHistory [Builtin.status.directive] } []
        .directiveList).run ⟨.new ⟨"::1".toList, 4321⟩, .new, ()⟩ = (.ok .ok, env') ∧
      env'.out.readBack = some lines ∧
      IsListing [(Builtin.status.directive : Directive Unit)] (cutRecords .directive lines) := by
  have honly : ∀ d : Directive Unit, lastRegistered [Builtin.status.directive] d.name = some d →
      d = Builtin.status.directive :=
    fun d hd => List.mem_singleton.mp (mem_of_lastRegistered hd)
  obtain ⟨env', lines, hrun, hread, -, hiff⟩ := directive_listing
    { (.new : ServerContext Unit) with directives := .ofHistory [Builtin.status.directive] } _ rfl
    (fun d hd => by
      rw [honly d hd]
      exact Builtin.status.isLine_directive)
    ⟨.new ⟨"::1".toList, 4321⟩, .new, ()⟩ rfl
  exact ⟨env', lines, hrun, hread, hiff.mpr ⟨Builtin.status.directive, rfl, honly⟩⟩

/-- `-quit` and `-status` come out as one record. -/
theorem directive_listing_merges :
    ∃ env' lines, (Builtin.run
        { (.new : ServerContext Unit) with
          directives := .ofHistory [Builtin.status.directive, Builtin.quit.directive] } []
        .directiveList).run ⟨.new ⟨"::1".toList, 4321⟩, .new, ()⟩ = (.ok .ok, env') ∧
      env'.out.readBack = some lines ∧
      cutRecords .directive lines =
        ([[.tagged .directive "Directive:quit".toList,
          .tagged .directive "Description:close the session".toList,
          .tagged .directive "Directive:status".toList,
          .tagged .directive "Description:report current session settings".toList]], []) ∧
      ¬ IsListing [(Builtin.status.directive : Directive Unit), Builtin.quit.directive]
        (cutRecords .directive lines) := by
  have hlisted : (Registry.ofHistory [(Builtin.status.directive : Directive Unit),
      Builtin.quit.directive]).listed = [Builtin.quit.directive, Builtin.status.directive] := by
    rfl
  have hlists := Registry.lists_listed
    [(Builtin.status.directive : Directive Unit), Builtin.quit.directive]
  refine ⟨_, _, Builtin.DirectiveList.run_eq _ _, Builtin.DirectiveList.readBack_listing ?_, ?_, ?_⟩
  · show ∀ d ∈ (Registry.ofHistory _).listed, _
    rw [hlisted, List.forall_mem_cons, List.forall_mem_singleton]
    exact ⟨Builtin.quit.isLine_directive, Builtin.status.isLine_directive⟩
  · rw [Builtin.DirectiveList.cutRecords_listing]
    show ([(Registry.ofHistory _).listed.flatMap _], []) = _
    rw [hlisted]
    decide +kernel
  · rw [Builtin.DirectiveList.cutRecords_listing]
    show ¬ IsListing _ ([(Registry.ofHistory _).listed.flatMap _], [])
    rw [isListing_singleton_iff hlists]
    rintro ⟨d, -, honly⟩
    have hquit := honly Builtin.quit.directive rfl
    have hstatus := honly Builtin.status.directive rfl
    have hname := congrArg Directive.name (hquit.trans hstatus.symm)
    exact absurd hname (by decide)

end Rwhois
