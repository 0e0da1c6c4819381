import StackProfiler.Proofs.Symbol.Naming
import StackProfiler.Simulation.NameTable

/-!
# Names from a table, asked for

A name table gives the same answer whenever it is asked, so a resolver over one finds the names that
the table says, whatever its cache remembers. The table remembers the questions, and the resolver
counts them: both agree along any run (`Logged.resolveAll`). The main statement is
`resolveAll_table`.
-/

namespace StackProfiler.Simulation.NameTable

open Checked (bind_eq_ok_iff)

variable {t : NameTable} {r r' : Resolver (List Question)}

/-- A table does not change its answers. -/
theorem source_answers (t : NameTable) : t.source.Answers t.find? :=
  fun asked path offset => ⟨(path, offset) :: asked, rfl⟩

/-- The questions that the resolver has counted are those that its table was asked. -/
structure Logged (t : NameTable) (r : Resolver (List Question)) : Prop where
  source_eq : r.source = t.source
  length_eq : r.state.length = r.stats.externalCalls

namespace Logged

theorem ofRegions {regions : List Region} {config : CacheConfig}
    (h : Resolver.ofRegions regions t.source [] config = .ok r) : Logged t r := by
  obtain ⟨cache, -, hr⟩ := bind_eq_ok_iff.mp h
  cases hr
  exact ⟨rfl, rfl⟩

/-- Other counters do not matter. -/
theorem withStats (h : Logged t r) {stats : ResolverStats}
    (hcalls : stats.externalCalls = r.stats.externalCalls) : Logged t { r with stats } :=
  ⟨h.source_eq, h.length_eq.trans hcalls.symm⟩

/-- **One question** is counted and remembered, if the address lies in a region. -/
theorem ask (h : Logged t r) {address : UInt64} {name? : Option String}
    (hask : r.ask address = .ok (name?, r')) : Logged t r' := by
  rw [Resolver.ask] at hask
  split at hask
  · cases hask
    exact h
  · obtain ⟨offset, -, hask⟩ := bind_eq_ok_iff.mp hask
    rw [h.source_eq] at hask
    cases hask
    exact ⟨rfl, congrArg (· + 1) h.length_eq⟩

/-- Asking without the cache leaves the counters of questions as one question does. -/
theorem resolveUncached (h : Logged t r) {address : UInt64} {name : String}
    (hname : r.resolveUncached address = .ok (name, r')) : Logged t r' := by
  obtain ⟨⟨name?, r₁⟩, hask, hname⟩ := bind_eq_ok_iff.mp hname
  have hlogged := h.ask hask
  cases name? with
  | some found =>
    cases hname
    exact hlogged
  | none =>
    cases hname
    exact hlogged.withStats rfl

theorem resolve (h : Logged t r) {address : UInt64} {name : String}
    (hname : r.resolve address = .ok (name, r')) : Logged t r' := by
  rw [Resolver.resolve] at hname
  split at hname
  · cases hname
    exact h.withStats rfl
  · split at hname
    · cases hname
      exact h.withStats rfl
    · obtain ⟨⟨found, r₁⟩, hfound, hname⟩ := bind_eq_ok_iff.mp hname
      have hlogged := (h.withStats (by rfl)).resolveUncached hfound
      cases hname
      exact ⟨hlogged.source_eq, hlogged.length_eq⟩
    · exact (h.withStats (by rfl)).resolveUncached hname

/-- **Any run** keeps the log and the counter together. -/
theorem resolveAll (h : Logged t r) {addresses : List UInt64} {names : List String}
    (hnames : r.resolveAll addresses = .ok (names, r')) : Logged t r' := by
  induction addresses generalizing r names with
  | nil =>
    cases hnames
    exact h
  | cons address addresses ih =>
    obtain ⟨⟨name, r₁⟩, hname, hnames⟩ := bind_eq_ok_iff.mp hnames
    obtain ⟨⟨rest, r₂⟩, hrest, hnames⟩ := bind_eq_ok_iff.mp hnames
    cases hnames
    exact ih (h.resolve hname) hrest

end Logged

/--
**A resolver over a name table** gives every address the name that the table says for its place in a
file, or a name by default, and counts exactly the questions that the table was asked.
-/
theorem resolveAll_table {regions : List Region} {config : CacheConfig}
    (hr : Resolver.ofRegions regions t.source [] config = .ok r) {addresses : List UInt64}
    (hfits : ∀ address ∈ addresses, OffsetFits regions address) :
    ∃ r', r.resolveAll addresses = .ok (addresses.map (nameOf regions t.find?), r') ∧
      r'.state.length = r'.stats.externalCalls := by
  obtain ⟨r', hnames, -⟩ := (Resolver.Knows.ofRegions t.source_answers hr).resolveAll hfits
  exact ⟨r', hnames, ((Logged.ofRegions hr).resolveAll hnames).length_eq⟩

end StackProfiler.Simulation.NameTable
