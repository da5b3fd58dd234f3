/-
# `CppWorkspace.IocpClient.CommandLine` — options, the timeout, and the local ports

`main` reads the options, computes `gTimeout` if there is a rate limit, and then binds the
socket of each connection to a local port.  Nothing is checked: a rate or a count of zero is
divided by, large products overflow, and the search for a port looks only for `1024` itself,
and only after a bind that has failed.

Conventions: `bind t` is whether the bind call number `t`, from `0`, succeeds; strings are
lists of characters; an option without its value, or an unknown one, ends the program.
-/
import Mathlib.Data.Nat.Digits.Defs

namespace CppWorkspace.IocpClient.CommandLine

/-! ## `ValidateArgs` -/

/-- The option `-a`. -/
inductive AddressFamily where
  | AF_UNSPEC
  | AF_INET
  | AF_INET6
deriving DecidableEq, Repr

/-- The options, with their defaults. -/
structure Args where
  gAddressFamily : AddressFamily
  gBufferSize : Int32
  gConnectionCount : Int32
  gBindPort : List Char
  gBindAddr : Option (List Char)
  gServerAddr : List Char
  gOverlappedCount : Int32
  gLocalPort : UInt16
  gRateLimit : Int32
  gTransmitFile : Bool
  gFileSize : Int32
  gSendCount : Int32
deriving DecidableEq

def Args.default : Args where
  gAddressFamily := .AF_UNSPEC
  gBufferSize := 4096
  gConnectionCount := 100000
  gBindPort := ['4', '5', '6', '7']
  gBindAddr := none
  gServerAddr := ['1', '9', '2', '.', '1', '6', '8', '.', '1', '.', '3', '4']
  gOverlappedCount := 1
  gLocalPort := 0xFFFD
  gRateLimit := -1
  gTransmitFile := false
  gFileSize := 2000000
  gSendCount := 100

def isspace (c : Char) : Bool :=
  c = ' ' || c = '\t' || c = '\n' || c = '\x0b' || c = '\x0c' || c = '\r'

/-- The value of the digits at the start, behind others of value `n`. -/
def digits : List Char → Nat → Nat
  | c :: cs, n => if c.isDigit then digits cs (10 * n + (c.toNat - 48)) else n
  | [], n => n

/-- A number that a `LONG` does not hold is the nearest that it does. -/
def atol (s : List Char) : Int32 :=
  match s.dropWhile isspace with
  | '-' :: cs => .ofIntClamp (-(digits cs 0))
  | '+' :: cs => .ofIntClamp (digits cs 0)
  | cs => .ofIntClamp (digits cs 0)

/-- The option `o` with the value `v`. -/
def setOption (args : Args) (o : Char) (v : List Char) : Option Args :=
  match o with
  | 'a' =>
      match v.head? with
      | some '4' => some { args with gAddressFamily := .AF_INET }
      | some '6' => some { args with gAddressFamily := .AF_INET6 }
      | _ => none
  | 'b' => some { args with gBufferSize := atol v }
  | 'c' => some { args with gConnectionCount := atol v }
  | 'e' => some { args with gBindPort := v }
  | 'l' => some { args with gBindAddr := some v }
  | 'n' => some { args with gServerAddr := v }
  | 'o' => some { args with gOverlappedCount := atol v }
  | 'p' => some { args with gLocalPort := (atol v).toUInt32.toUInt16 }
  | 'r' => some { args with gRateLimit := atol v }
  | 't' => some { args with gTransmitFile := true, gFileSize := atol v }
  | 'x' => some { args with gSendCount := atol v }
  | _ => none

/-- `none`: `usage`, which ends the program. -/
def options (args : Args) : List (List Char) → Option Args
  | [] => some args
  | (d :: o :: _) :: v :: rest =>
      if d = '/' ∨ d = '-' then (setOption args o.toLower v).bind fun args => options args rest
      else none
  | _ => none

def ValidateArgs (argv : List (List Char)) : Option Args := options .default argv.tail

/-! Every number is that of a command line. -/

def decimal (n : Nat) : List Char := (Nat.digits 10 n).reverse.map Nat.digitChar

theorem digits_digitChar {ds : List Nat} (h : ∀ d ∈ ds, d < 10) (n : Nat) :
    digits (ds.map Nat.digitChar) n = ds.foldl (fun n d => 10 * n + d) n := by
  induction ds generalizing n with
  | nil => rfl
  | cons d ds ih =>
      obtain ⟨hd, hds⟩ := List.forall_mem_cons.mp h
      have hchar : (Nat.digitChar d).isDigit = true ∧ (Nat.digitChar d).toNat - 48 = d := by
        have hall : ∀ d < 10, (Nat.digitChar d).isDigit = true ∧
            (Nat.digitChar d).toNat - 48 = d := by decide
        exact hall d hd
      rw [List.map_cons, digits, if_pos hchar.1, hchar.2]
      exact ih hds _

theorem digits_decimal (n : Nat) : digits (decimal n) 0 = n := by
  have hfold : ∀ ds : List Nat, ds.foldr (fun d n => 10 * n + d) 0 = Nat.ofDigits 10 ds := by
    intro ds
    induction ds with
    | nil => rfl
    | cons d ds ih => rw [List.foldr_cons, ih, Nat.ofDigits_cons, Nat.add_comm]
  have hlt : ∀ d ∈ (Nat.digits 10 n).reverse, d < 10 :=
    fun d hd => Nat.digits_lt_base (by decide) (List.mem_reverse.mp hd)
  rw [decimal, digits_digitChar hlt, List.foldl_reverse, hfold, Nat.ofDigits_digits]

/-- As it is written with its sign. -/
def signed (x : Int) : List Char :=
  if x < 0 then '-' :: decimal x.natAbs else '+' :: decimal x.natAbs

theorem atol_signed (x : Int32) : atol (signed x.toInt) = x := by
  rw [signed]
  split
  · have hvalue : -(x.toInt.natAbs : Int) = x.toInt := by omega
    change Int32.ofIntClamp (-(digits (decimal x.toInt.natAbs) 0 : Nat)) = x
    rw [digits_decimal, hvalue, Int32.ofIntClamp_toInt]
  · have hvalue : (x.toInt.natAbs : Int) = x.toInt := by omega
    change Int32.ofIntClamp (digits (decimal x.toInt.natAbs) 0 : Nat) = x
    rw [digits_decimal, hvalue, Int32.ofIntClamp_toInt]

theorem ValidateArgs_accepts (rate count size : Int32) (port : UInt16) :
    ∃ argv args, ValidateArgs argv = some args ∧ args.gRateLimit = rate ∧
      args.gConnectionCount = count ∧ args.gBufferSize = size ∧ args.gLocalPort = port := by
  refine ⟨[[], ['-', 'r'], signed rate.toInt, ['-', 'c'], signed count.toInt, ['-', 'b'],
    signed size.toInt, ['-', 'p'], signed port.toUInt32.toInt32.toInt], _, rfl, atol_signed rate,
    atol_signed count, atol_signed size, ?_⟩
  change (atol (signed port.toUInt32.toInt32.toInt)).toUInt32.toUInt16 = port
  rw [atol_signed]
  exact UInt16.toUInt16_toUInt32 port

/-! ## `gTimeout` -/

/-- The values of an `int`. -/
def InInt (x : Int) : Prop := -2147483648 ≤ x ∧ x ≤ 2147483647

instance (x : Int) : Decidable (InInt x) := inferInstanceAs (Decidable (_ ∧ _))

/-- `none`: an overflow. -/
def int (x : Int) : Option Int := if InInt x then some x else none

def mul (x y : Int) : Option Int := int (x * y)

/-- `none`: also a division by zero. -/
def div (x y : Int) : Option Int := if y = 0 then none else int (x.tdiv y)

def gTimeout (args : Args) : Option Int :=
  if args.gRateLimit ≠ -1 then
    (mul args.gConnectionCount.toInt args.gBufferSize.toInt).bind fun bytes =>
    (div bytes args.gRateLimit.toInt).bind fun seconds =>
    (mul seconds 1000).bind fun milliseconds =>
    (div milliseconds args.gConnectionCount.toInt).bind fun timeout =>
    if 1000000 ≤ args.gRateLimit.toInt then div timeout 2 else some timeout
  else some 0

/-- No divisor is zero, and neither the bytes nor the milliseconds are too many. -/
def RateOk (args : Args) : Prop :=
  args.gRateLimit.toInt ≠ 0 ∧ args.gConnectionCount.toInt ≠ 0 ∧
    InInt (args.gConnectionCount.toInt * args.gBufferSize.toInt) ∧
    (args.gConnectionCount.toInt * args.gBufferSize.toInt).natAbs <
      2147484 * args.gRateLimit.toInt.natAbs

theorem int_of_le {x : Int} (h : x.natAbs ≤ 2147483647) : int x = some x := by
  have hx : InInt x := by
    unfold InInt
    omega
  exact if_pos hx

theorem int_eq_some {x y : Int} : int x = some y ↔ InInt x ∧ x = y := by
  rw [int, Option.ite_none_right_eq_some, Option.some.injEq]

theorem div_eq_some {x y z : Int} :
    div x y = some z ↔ y ≠ 0 ∧ InInt (x.tdiv y) ∧ x.tdiv y = z := by
  rw [div, Option.ite_none_left_eq_some, int_eq_some]

theorem InInt_mul_iff {x : Int} : InInt (x * 1000) ↔ x.natAbs < 2147484 := by
  unfold InInt
  omega

theorem natAbs_tdiv_lt_iff {x y : Int} (hy : y ≠ 0) :
    (x.tdiv y).natAbs < 2147484 ↔ x.natAbs < 2147484 * y.natAbs := by
  rw [Int.natAbs_tdiv]
  exact Nat.div_lt_iff_lt_mul (Int.natAbs_pos.mpr hy)

theorem gTimeout_isSome_iff {args : Args} (h : args.gRateLimit ≠ -1) :
    (gTimeout args).isSome ↔ RateOk args := by
  rw [gTimeout, if_pos h, Option.isSome_iff_exists]
  constructor
  · rintro ⟨t, ht⟩
    obtain ⟨bytes, hbytes, ht⟩ := Option.bind_eq_some_iff.mp ht
    obtain ⟨seconds, hseconds, ht⟩ := Option.bind_eq_some_iff.mp ht
    obtain ⟨milliseconds, hmilliseconds, ht⟩ := Option.bind_eq_some_iff.mp ht
    obtain ⟨timeout, htimeout, -⟩ := Option.bind_eq_some_iff.mp ht
    obtain ⟨hin, rfl⟩ := int_eq_some.mp hbytes
    obtain ⟨hrate, -, rfl⟩ := div_eq_some.mp hseconds
    obtain ⟨hscaled, -⟩ := int_eq_some.mp hmilliseconds
    obtain ⟨hcount, -⟩ := div_eq_some.mp htimeout
    exact ⟨hrate, hcount, hin, (natAbs_tdiv_lt_iff hrate).mp (InInt_mul_iff.mp hscaled)⟩
  · rintro ⟨hrate, hcount, hin, hlt⟩
    have hseconds := (natAbs_tdiv_lt_iff hrate).mpr hlt
    generalize hq : (args.gConnectionCount.toInt * args.gBufferSize.toInt).tdiv
      args.gRateLimit.toInt = seconds at hseconds
    -- The absolute value only gets smaller in the two divisions that follow.
    have htimeout := Int.natAbs_tdiv_le_natAbs (seconds * 1000) args.gConnectionCount.toInt
    have hhalf := Int.natAbs_tdiv_le_natAbs
      ((seconds * 1000).tdiv args.gConnectionCount.toInt) 2
    have hmilliseconds : (seconds * 1000).natAbs ≤ 2147483000 := by omega
    rw [mul, int_eq_some.mpr ⟨hin, rfl⟩, Option.bind_some, div, if_neg hrate, hq,
      int_of_le (by omega), Option.bind_some, mul, int_of_le (by omega), Option.bind_some, div,
      if_neg hcount, int_of_le (by omega), Option.bind_some]
    split
    · rw [div, if_neg (by decide), int_of_le (by omega)]
      exact ⟨_, rfl⟩
    · exact ⟨_, rfl⟩

/-! ## The local ports -/

/-- The next port, and the ports that were given to `bind` so far (a ghost). -/
structure Ports where
  gLocalPort : UInt16
  tried : List UInt16
deriving DecidableEq

/-- `gLocalPort--` -/
def Ports.lower (σ : Ports) : Ports := { σ with gLocalPort := σ.gLocalPort - 1 }

/-- `bind` with the next port. -/
def Ports.attempt (σ : Ports) : Ports := { σ with tried := σ.tried ++ [σ.gLocalPort] }

/-- The `do` loop, and whether the socket was bound.  Outer `none`: still running. -/
def search (bind : Nat → Bool) : Nat → Ports → Option (Ports × Bool)
  | 0, _ => none
  | fuel + 1, σ =>
      if bind σ.tried.length then some (σ.attempt, true)
      else if σ.attempt.lower.gLocalPort = 1024 then some (σ.attempt.lower, false)
      else search bind fuel σ.attempt.lower

/-- The sockets of `n` connections.  The loops for each address and each connection are one: the
port is not reset in between.  A `return` after another call that fails makes them fewer. -/
def connections (bind : Nat → Bool) : Nat → Ports → Option Ports
  | 0, σ => some σ
  | n + 1, σ => (search bind 65536 σ).bind fun x =>
      if x.2 then connections bind n x.1.lower else some x.1

def Above (σ : Ports) : Prop := ∀ p ∈ σ.tried, 1024 < p

/-- How many ports above `1024` there are from the next one down. -/
def left (σ : Ports) : Nat := σ.gLocalPort.toNat - 1024

/-- How many of the binds to them succeed. -/
def successes (bind : Nat → Bool) (σ : Ports) : Nat :=
  (List.range' σ.tried.length (left σ)).countP bind

/-- The bind to port `1025` fails, if it comes to that, or all sockets are bound. -/
def Enough (bind : Nat → Bool) (n : Nat) (σ : Ports) : Prop :=
  n = 0 ∨ 0 < left σ ∧
    (bind (σ.tried.length + left σ - 1) = false ∨ n ≤ successes bind σ)

section
variable {bind : Nat → Bool} {σ τ : Ports} {n fuel : Nat}

theorem length_attempt : σ.attempt.tried.length = σ.tried.length + 1 := List.length_append

theorem toNat_lower (h : 0 < left σ) :
    σ.lower.gLocalPort.toNat = σ.gLocalPort.toNat - 1 := by
  refine UInt16.toNat_sub_of_le _ _ (UInt16.le_iff_toNat_le.mpr ?_)
  change 1 ≤ σ.gLocalPort.toNat
  unfold left at h
  omega

theorem left_lower (h : 0 < left σ) : left σ.lower + 1 = left σ := by
  have hport := toNat_lower h
  unfold left at h ⊢
  omega

theorem lower_eq_iff (h : 0 < left σ) : σ.lower.gLocalPort = 1024 ↔ left σ.lower = 0 := by
  have hport := toNat_lower h
  rw [← UInt16.toNat_inj]
  change σ.lower.gLocalPort.toNat = 1024 ↔ σ.lower.gLocalPort.toNat - 1024 = 0
  unfold left at h
  omega

theorem Above.attempt (h : Above σ) (hleft : 0 < left σ) : Above σ.attempt := by
  intro p hp
  rcases List.mem_append.mp hp with hp | hp
  · exact h p hp
  · rw [List.mem_singleton.mp hp, UInt16.lt_iff_toNat_lt]
    unfold left at hleft
    change 1024 < σ.gLocalPort.toNat
    omega

theorem successes_attempt (bind : Nat → Bool) (hleft : 0 < left σ) :
    successes bind σ = successes bind σ.attempt.lower + if bind σ.tried.length then 1 else 0 := by
  have hlower : left σ = left σ.attempt.lower + 1 := (left_lower hleft).symm
  rw [successes, hlower, List.range'_succ, List.countP_cons, successes]
  have hlength : σ.attempt.lower.tried.length = σ.tried.length + 1 := length_attempt
  rw [hlength]

/-- A search that starts above `1024` stays there.  Either the last bind of all fails, and the
search gives up, or one of the binds to come is used up. -/
theorem search_above (bind : Nat → Bool) (hfuel : left σ ≤ fuel) (hleft : 0 < left σ)
    (h : Above σ) :
    (∃ τ, search bind fuel σ = some (τ, false) ∧ Above τ ∧
        bind (σ.tried.length + left σ - 1) = false) ∨
      ∃ τ, search bind fuel σ = some (τ, true) ∧ Above τ ∧
        τ.lower.tried.length + left τ.lower = σ.tried.length + left σ ∧
        successes bind σ = successes bind τ.lower + 1 ∧
        (left τ.lower = 0 → bind (σ.tried.length + left σ - 1) = true) := by
  induction fuel generalizing σ with
  | zero => omega
  | succ fuel ih =>
      have hlower : left σ.attempt.lower + 1 = left σ := left_lower hleft
      have hlength : σ.attempt.lower.tried.length = σ.tried.length + 1 := length_attempt
      have habove : Above σ.attempt := h.attempt hleft
      have hsuccesses := successes_attempt bind hleft
      have hlast : left σ.attempt.lower = 0 → σ.tried.length + left σ - 1 = σ.tried.length := by
        omega
      rw [search]
      cases hbind : bind σ.tried.length with
      | true =>
          rw [hbind, if_pos rfl] at hsuccesses
          refine .inr ⟨σ.attempt, rfl, habove, by omega, hsuccesses, fun hzero => ?_⟩
          rw [hlast hzero, hbind]
      | false =>
          rw [hbind, if_neg Bool.false_ne_true, Nat.add_zero] at hsuccesses
          rw [if_neg Bool.false_ne_true]
          by_cases hzero : left σ.attempt.lower = 0
          · rw [if_pos ((lower_eq_iff (σ := σ.attempt) hleft).mpr hzero)]
            refine .inl ⟨σ.attempt.lower, rfl, habove, ?_⟩
            rw [hlast hzero, hbind]
          · rw [if_neg fun hport => hzero ((lower_eq_iff (σ := σ.attempt) hleft).mp hport)]
            have hrest := ih (by omega) (Nat.pos_of_ne_zero hzero) habove
            have hindex : σ.attempt.lower.tried.length + left σ.attempt.lower =
                σ.tried.length + left σ := by omega
            rwa [hindex, ← hsuccesses] at hrest

theorem search_tried {ok : Bool} (h : search bind fuel σ = some (τ, ok)) :
    σ.attempt.tried <+: τ.tried := by
  induction fuel generalizing σ with
  | zero => cases h
  | succ fuel ih =>
      rw [search] at h
      split at h
      · cases h
        exact List.prefix_rfl
      · split at h
        · cases h
          exact List.prefix_rfl
        · have hrest := ih (σ := σ.attempt.lower) h
          exact (List.prefix_append ..).trans hrest

theorem connections_tried (h : connections bind n σ = some τ) : σ.tried <+: τ.tried := by
  induction n generalizing σ with
  | zero =>
      cases h
      exact List.prefix_rfl
  | succ n ih =>
      obtain ⟨⟨ρ, ok⟩, hρ, h⟩ := Option.bind_eq_some_iff.mp h
      have htried : σ.tried <+: ρ.tried := (List.prefix_append ..).trans (search_tried hρ)
      cases ok with
      | true =>
          have hrest := ih (σ := ρ.lower) h
          exact htried.trans hrest
      | false =>
          cases h
          exact htried

theorem gLocalPort_mem (h : connections bind (n + 1) σ = some τ) : σ.gLocalPort ∈ τ.tried := by
  obtain ⟨⟨ρ, ok⟩, hρ, h⟩ := Option.bind_eq_some_iff.mp h
  have hmem : σ.gLocalPort ∈ ρ.tried := (search_tried hρ).subset (by simp [Ports.attempt])
  cases ok with
  | true => exact (connections_tried (σ := ρ.lower) h).subset hmem
  | false =>
      cases h
      exact hmem

theorem left_le (σ : Ports) : left σ ≤ 65536 := by
  have hlt := σ.gLocalPort.toNat_lt
  unfold left
  omega

theorem connections_above_iff (h : Above σ) :
    (∃ τ, connections bind n σ = some τ ∧ Above τ) ↔ Enough bind n σ := by
  induction n generalizing σ with
  | zero => exact ⟨fun _ => .inl rfl, fun _ => ⟨σ, rfl, h⟩⟩
  | succ n ih =>
      by_cases hleft : 0 < left σ
      · have henough : Enough bind (n + 1) σ ↔
            bind (σ.tried.length + left σ - 1) = false ∨ n + 1 ≤ successes bind σ := by
          rw [Enough]
          exact ⟨fun h => (h.resolve_left (Nat.succ_ne_zero n)).2, fun h => .inr ⟨hleft, h⟩⟩
        rw [henough]
        rcases search_above bind (left_le σ) hleft h with
          ⟨τ, hτ, habove, hfail⟩ | ⟨τ, hτ, habove, hindex, hsuccesses, hlast⟩
        · refine ⟨fun _ => .inl hfail, fun _ => ⟨τ, ?_, habove⟩⟩
          rw [connections, hτ]
          rfl
        · have hrest : connections bind (n + 1) σ = connections bind n τ.lower := by
            rw [connections, hτ]
            rfl
          rw [hrest, ih (σ := τ.lower) habove, Enough, hindex, hsuccesses]
          rcases Nat.eq_zero_or_pos (left τ.lower) with hzero | hpos
          · have hnone : successes bind τ.lower = 0 := by
              rw [successes, hzero]
              rfl
            rw [hlast hzero, hnone]
            simp [hzero]
          · rw [Nat.add_le_add_iff_right]
            constructor
            · rintro (rfl | ⟨-, hcases⟩)
              · exact .inr (Nat.zero_le _)
              · exact hcases
            · exact fun hcases => .inr ⟨hpos, hcases⟩
      · constructor
        · rintro ⟨τ, hτ, habove⟩
          have hport := habove _ (gLocalPort_mem hτ)
          rw [UInt16.lt_iff_toNat_lt] at hport
          exact absurd (Nat.sub_pos_of_lt hport) hleft
        · rintro (hzero | hpos)
          · cases hzero
          · exact absurd hpos.1 hleft

/-- Each bind that fails brings the port nearer to `1025`, if need be by way of `0` and `65535`. -/
theorem search_ends (bind : Nat → Bool) (h : (σ.gLocalPort - 1025).toNat < fuel) :
    ∃ x, search bind fuel σ = some x := by
  induction fuel generalizing σ with
  | zero => cases h
  | succ fuel ih =>
      rw [search]
      split
      · exact ⟨_, rfl⟩
      · split
        · exact ⟨_, rfl⟩
        · rename_i hport
          refine ih (σ := σ.attempt.lower) ?_
          have hlt := σ.gLocalPort.toNat_lt
          have hne : (σ.gLocalPort - 1).toNat ≠ 1024 :=
            fun he => hport (UInt16.toNat_inj.mp he)
          change (σ.gLocalPort - 1 - 1025).toNat < fuel
          rw [UInt16.toNat_sub] at h hne ⊢
          rw [UInt16.toNat_sub]
          change (65536 - 1025 + σ.gLocalPort.toNat) % 65536 < fuel + 1 at h
          change (65536 - 1 + σ.gLocalPort.toNat) % 65536 ≠ 1024 at hne
          change (65536 - 1025 + (65536 - 1 + σ.gLocalPort.toNat) % 65536) % 65536 < fuel
          omega

theorem connections_end (bind : Nat → Bool) (n : Nat) (σ : Ports) :
    ∃ τ, connections bind n σ = some τ := by
  induction n generalizing σ with
  | zero => exact ⟨σ, rfl⟩
  | succ n ih =>
      have hlt : (σ.gLocalPort - 1025).toNat < 65536 := (σ.gLocalPort - 1025).toNat_lt
      obtain ⟨⟨ρ, ok⟩, hρ⟩ := search_ends bind hlt
      cases ok with
      | true =>
          obtain ⟨τ, hτ⟩ := ih ρ.lower
          exact ⟨τ, by rw [connections, hρ]; exact hτ⟩
      | false => exact ⟨ρ, by rw [connections, hρ]; rfl⟩

end

/-! ## Both -/

/-- `gTimeout` is computed without a division by zero and without an overflow; the searches end,
and no port at or below `1024` is tried. -/
def Safe (args : Args) (n : Nat) (bind : Nat → Bool) : Prop :=
  (gTimeout args).isSome ∧ ∃ τ, connections bind n ⟨args.gLocalPort, []⟩ = some τ ∧ Above τ

/-- No connection is made, or the search starts above `1024` and either gives up before it comes
to it or has bound all sockets by then. -/
def PortsOk (args : Args) (n : Nat) (bind : Nat → Bool) : Prop :=
  n = 0 ∨ 1024 < args.gLocalPort.toNat ∧ (bind (args.gLocalPort.toNat - 1025) = false ∨
    n ≤ (List.range (args.gLocalPort.toNat - 1024)).countP bind)

theorem enough_start {args : Args} {n : Nat} {bind : Nat → Bool} :
    Enough bind n ⟨args.gLocalPort, []⟩ ↔ PortsOk args n bind := by
  generalize hport : args.gLocalPort = port
  have hindex : ([] : List UInt16).length + left ⟨port, []⟩ - 1 = port.toNat - 1025 := by
    unfold left
    simp only [List.length_nil]
    omega
  have hpos : 0 < left ⟨port, []⟩ ↔ 1024 < port.toNat := Nat.sub_pos_iff_lt
  have hsuccesses : successes bind ⟨port, []⟩ = (List.range (port.toNat - 1024)).countP bind := by
    unfold successes left
    rw [List.range_eq_range', List.length_nil]
  rw [Enough, PortsOk, hindex, hpos, hsuccesses, hport]

theorem rate_and_ports_iff {args : Args} (h : args.gRateLimit ≠ -1) (n : Nat) (bind : Nat → Bool) :
    Safe args n bind ↔ RateOk args ∧ PortsOk args n bind := by
  have habove : Above ⟨args.gLocalPort, []⟩ := by
    intro p hp
    cases hp
  rw [Safe, gTimeout_isSome_iff h, connections_above_iff habove, enough_start]

/-- Three ports are left for two connections, and the first bind fails. -/
theorem rate_and_ports_three :
    ∃ args, ValidateArgs [[], ['-', 'r'], ['1', '0', '0', '0', '0', '0', '0'], ['-', 'c'], ['2'],
        ['-', 'p'], ['1', '0', '2', '7']] = some args ∧
      args.gRateLimit ≠ -1 ∧ Safe args 2 fun t => t != 0 := by
  refine ⟨_, rfl, by decide, ?_⟩
  refine (rate_and_ports_iff (by decide) 2 fun t => t != 0).mpr ⟨?_, .inr ⟨by decide, .inr ?_⟩⟩
  · exact ⟨by decide, by decide, by decide, by decide⟩
  · decide

/-- A rate of zero is divided by, and two binds that succeed lead from `1025` to `1024`. -/
theorem rate_and_ports_fail :
    (∃ args, ValidateArgs [[], ['-', 'r'], ['0']] = some args ∧ args.gRateLimit ≠ -1 ∧
      ¬Safe args 0 fun _ => true) ∧
    ∃ args, ValidateArgs [[], ['-', 'r'], ['1', '0', '0', '0', '0', '0', '0'], ['-', 'c'], ['2'],
        ['-', 'p'], ['1', '0', '2', '5']] = some args ∧ args.gRateLimit ≠ -1 ∧
      (gTimeout args).isSome ∧ ¬Safe args 2 fun _ => true := by
  refine ⟨⟨_, rfl, by decide, fun h => absurd h.1 (by decide)⟩, _, rfl, by decide, by decide, ?_⟩
  rintro ⟨-, τ, hτ, habove⟩
  have hrun : connections (fun _ => true) 2 ⟨1025, []⟩ = some ⟨1023, [1025, 1024]⟩ := rfl
  obtain rfl := Option.some.inj (hrun.symm.trans hτ)
  exact absurd (habove 1024 (by decide)) (by decide)

end CppWorkspace.IocpClient.CommandLine
