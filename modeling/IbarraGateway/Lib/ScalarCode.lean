import Mathlib.Algebra.Field.Basic
import Mathlib.Logic.Function.Basic

/-!
# Straight-line scalar code

Instructions on registers that hold numbers of a field. The arithmetic is exact, and a quotient by zero is undefined, as is
what is computed from something undefined. With known operands, the equations here execute a program symbolically.
-/

namespace IbarraGateway.ScalarCode

inductive Instr (R K : Type)
  | fmov (d : R) (imm : K)
  | fadd (d n m : R)
  | fsub (d n m : R)
  | fmul (d n m : R)
  | fdiv (d n m : R)

section Arithmetic
variable {K : Type}

/-- Both operands must be defined. -/
def binary (op : K → K → Option K) (x y : Option K) : Option K := x.bind fun x => y.bind fun y => op x y

@[simp] theorem binary_some (op : K → K → Option K) (x y : K) : binary op (some x) (some y) = op x y := rfl

variable [Field K] [DecidableEq K]

def quotient (x y : K) : Option K := if y = 0 then none else some (x / y)

@[simp] theorem quotient_zero (x : K) : quotient x 0 = none := if_pos rfl

theorem quotient_of_ne (x : K) {y : K} (h : y ≠ 0) : quotient x y = some (x / y) := if_neg h

end Arithmetic

variable {R K : Type} [DecidableEq R] [Field K] [DecidableEq K]

/-- `none` is an undefined register. -/
def exec (s : R → Option K) : Instr R K → R → Option K
  | .fmov d imm => Function.update s d (some imm)
  | .fadd d n m => Function.update s d (binary (fun x y => some (x + y)) (s n) (s m))
  | .fsub d n m => Function.update s d (binary (fun x y => some (x - y)) (s n) (s m))
  | .fmul d n m => Function.update s d (binary (fun x y => some (x * y)) (s n) (s m))
  | .fdiv d n m => Function.update s d (binary quotient (s n) (s m))

def run (s : R → Option K) (code : List (Instr R K)) : R → Option K := code.foldl exec s

@[simp] theorem run_nil (s : R → Option K) : run s [] = s := rfl

@[simp] theorem run_cons (s : R → Option K) (i : Instr R K) (code : List (Instr R K)) :
    run s (i :: code) = run (exec s i) code :=
  rfl

end IbarraGateway.ScalarCode
