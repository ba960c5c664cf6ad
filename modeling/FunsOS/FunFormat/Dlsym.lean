import Mathlib.Data.List.Basic

/-!
# Symbols of shared libraries

`fun_load_library` of `os/fun_format.c` chains the entries of a symbol table by hashes of the
strings at their *values*, while `fun_dlsym` looks a name up by its own hash and then in the whole
table. Chains only lead to smaller entries, so the lookup returns, and it is exact whatever was
hashed (`funDlsym_exact`).
-/

set_option autoImplicit false

namespace FunsOS.FunFormat

/-- `fun_dynsym_t`. -/
structure Dynsym where
  name : List UInt8
  value : UInt32

/-- `funlib_t`. -/
structure Funlib where
  base : UInt32
  dynsym : List Dynsym
  dynstr : Option (List UInt8)

/-- The two arrays behind the sizes in `lib->hash`. -/
structure Hash where
  buckets : Nat → Nat
  chains : Nat → Nat

/-- `fun_dynsym_hash`. -/
def funDynsymHash (name : List UInt8) : UInt32 :=
  name.foldl (fun h byte =>
    let h := (h <<< 4) + byte.toUInt32
    let g := h &&& 0xF0000000
    (if g = 0 then h else h ^^^ g >>> 24) &&& ~~~g) 0

/-- The hash table after `n` rounds of the loop that builds it. The string that is hashed for an
entry may lie anywhere, as its value is taken for an offset. -/
def buildHash (strings : Nat → List UInt8) (count : Nat) : Nat → Hash
  | 0 => ⟨fun _ => 0, fun _ => 0⟩
  | n + 1 =>
    let hash := buildHash strings count n
    let h := (funDynsymHash (strings (n + 1))).toNat % count
    { buckets := Function.update hash.buckets h (n + 1)
      chains := Function.update hash.chains (n + 1) (hash.buckets h) }

/-- The hash table that `fun_load_library` leaves. -/
def Funlib.loadHash (lib : Funlib) (strings : Nat → List UInt8) : Hash :=
  buildHash strings lib.dynsym.length (lib.dynsym.length - 1)

/-- The bytes from `sym_name` on. -/
def Funlib.symName (lib : Funlib) (sym : Dynsym) : List UInt8 :=
  match lib.dynstr with
  | some dynstr => dynstr.drop ((sym.name.take 4).foldr (fun byte n => byte.toNat + 256 * n) 0)
  | none => sym.name

/-- The comparison of `symbol` with the bytes of a name. -/
def isMatch : List UInt8 → List UInt8 → Bool
  | [], c :: _ => c == 0
  | a :: symbol, c :: name => c != 0 && a == c && isMatch symbol name
  | _, [] => false

variable {lib : Funlib} {hash : Hash} {symbol name : List UInt8}

/-- The walk along a chain; `none` when the fuel does not suffice. -/
def chainSearch (lib : Funlib) (hash : Hash) (symbol : List UInt8) :
    Nat → Nat → Option (Option Dynsym)
  | 0, _ => none
  | fuel + 1, idx =>
    match if idx = 0 then none else lib.dynsym[idx]? with
    | none => some none
    | some sym =>
      if isMatch symbol (lib.symName sym) then some (some sym)
      else chainSearch lib hash symbol fuel (hash.chains idx)

/-- The search by hash; there is no hash table without entries. -/
def hashSearch (lib : Funlib) (hash : Hash) (symbol : List UInt8) : Option (Option Dynsym) :=
  let count := lib.dynsym.length
  if count = 0 then some none
  else chainSearch lib hash symbol count (hash.buckets ((funDynsymHash symbol).toNat % count))

/-- `fun_dlsym`; the address 0 is NULL. -/
def funDlsym (lib : Funlib) (hash : Hash) (symbol : List UInt8) : Option UInt32 :=
  (hashSearch lib hash symbol).map fun found =>
    (found.or (lib.dynsym.find? fun sym => isMatch symbol (lib.symName sym))).elim 0
      (lib.base + ·.value)

/-- The name of an entry: the string at `sym_name`. -/
def Funlib.named (lib : Funlib) (sym : Dynsym) : List UInt8 := (lib.symName sym).takeWhile (· ≠ 0)

theorem isMatch_iff (text : 0 ∉ symbol) (ends : 0 ∈ name) :
    isMatch symbol name ↔ name.takeWhile (· ≠ 0) = symbol := by
  induction symbol generalizing name with
  | nil =>
    obtain _ | ⟨c, name⟩ := name
    · cases ends
    · by_cases zero : c = 0 <;> simp [isMatch, zero]
  | cons a symbol ih =>
    obtain _ | ⟨c, name⟩ := name
    · cases ends
    · by_cases zero : c = 0
      · simp [isMatch, zero]
      · have rest := ih (fun held => text (.tail a held)) (by simpa [Ne.symm zero] using ends)
        simp [isMatch, zero, rest, @eq_comm _ a]

/-- After `n` rounds buckets hold entries up to the last one, and chains descend. -/
theorem buildHash_descends (strings : Nat → List UInt8) (count n : Nat) :
    (∀ h, (buildHash strings count n).buckets h ≤ n) ∧
      ∀ idx ≠ 0, (buildHash strings count n).chains idx < idx := by
  induction n with
  | zero => exact ⟨fun _ => Nat.le_refl 0, fun _ => Nat.pos_of_ne_zero⟩
  | succ n ih =>
    constructor
    · intro h
      simp only [buildHash, Function.update_apply]
      split
      · exact Nat.le_refl _
      · exact Nat.le_succ_of_le (ih.1 h)
    · intro idx used
      simp only [buildHash, Function.update_apply]
      split
      · next here =>
        rw [here]
        exact Nat.lt_succ_of_le (ih.1 _)
      · exact ih.2 idx used

theorem chainSearch_returns (descends : ∀ idx ≠ 0, hash.chains idx < idx) {fuel idx : Nat}
    (enough : idx < fuel) :
    ∃ found, chainSearch lib hash symbol fuel idx = some found ∧
      ∀ sym ∈ found, sym ∈ lib.dynsym ∧ isMatch symbol (lib.symName sym) := by
  induction fuel generalizing idx with
  | zero => cases enough
  | succ fuel ih =>
    rw [chainSearch]
    split
    · exact ⟨none, rfl, nofun⟩
    · next sym held =>
      split at held
      · cases held
      · next used =>
        split
        · next same =>
          refine ⟨some sym, rfl, ?_⟩
          rintro _ ⟨⟩
          exact ⟨List.mem_of_getElem? held, same⟩
        · exact ih (Nat.lt_of_lt_of_le (descends idx used) (Nat.le_of_lt_succ enough))

/-- **Symbol lookup is exact**: it returns, with NULL exactly when no entry has the name, and
otherwise with the address of an entry of that name. -/
theorem funDlsym_exact (strings : Nat → List UInt8) (text : 0 ∉ symbol)
    (ends : ∀ sym ∈ lib.dynsym, 0 ∈ lib.symName sym)
    (placed : ∀ sym ∈ lib.dynsym, lib.base + sym.value ≠ 0) :
    ∃ address, funDlsym lib (lib.loadHash strings) symbol = some address ∧
      (address = 0 ↔ ∀ sym ∈ lib.dynsym, lib.named sym ≠ symbol) ∧
      (address ≠ 0 → ∃ sym ∈ lib.dynsym, lib.named sym = symbol ∧ address = lib.base + sym.value) := by
  obtain ⟨low, descends⟩ := buildHash_descends strings lib.dynsym.length (lib.dynsym.length - 1)
  have matched {sym} (held : sym ∈ lib.dynsym) :
      isMatch symbol (lib.symName sym) ↔ lib.named sym = symbol :=
    isMatch_iff text (ends sym held)
  obtain ⟨found, returns, sound⟩ : ∃ found, hashSearch lib (lib.loadHash strings) symbol = some found ∧
      ∀ sym ∈ found, sym ∈ lib.dynsym ∧ isMatch symbol (lib.symName sym) := by
    rw [hashSearch]
    split
    · exact ⟨none, rfl, nofun⟩
    · next entries =>
      exact chainSearch_returns descends (Nat.lt_of_le_of_lt (low _) (Nat.sub_one_lt entries))
  simp only [funDlsym, returns, Option.map_some, Option.some.injEq, exists_eq_left']
  cases result : found.or (lib.dynsym.find? fun sym => isMatch symbol (lib.symName sym)) with
  | some sym =>
    obtain ⟨held, same⟩ : sym ∈ lib.dynsym ∧ isMatch symbol (lib.symName sym) := by
      obtain chained | ⟨-, listed⟩ := Option.or_eq_some_iff.mp result
      · exact sound sym chained
      · have same := List.find?_some listed
        exact ⟨List.mem_of_find?_eq_some listed, same⟩
    have same := (matched held).mp same
    exact ⟨⟨fun null => (placed sym held null).elim, fun absent => (absent sym held same).elim⟩,
      fun _ => ⟨sym, held, same, rfl⟩⟩
  | none =>
    have absent := List.find?_eq_none.mp (Option.or_eq_none_iff.mp result).2
    exact ⟨⟨fun _ sym held same => absent sym held ((matched held).mpr same), fun _ => rfl⟩,
      fun other => (other rfl).elim⟩

/-- The symbol `f` at 16, and a second entry whose name is empty. -/
def oneSymbol : Funlib := ⟨4096, [⟨[0], 32⟩, ⟨[1], 16⟩], some [0, 102, 0]⟩

theorem oneSymbol_found :
    ∃ address, funDlsym oneSymbol (oneSymbol.loadHash fun _ => []) [102] = some address ∧
      (address = 0 ↔ ∀ sym ∈ oneSymbol.dynsym, oneSymbol.named sym ≠ [102]) ∧
      (address ≠ 0 → ∃ sym ∈ oneSymbol.dynsym, oneSymbol.named sym = [102] ∧
        address = oneSymbol.base + sym.value) :=
  funDlsym_exact (fun _ => []) (by decide) (by decide) (by decide)

end FunsOS.FunFormat
