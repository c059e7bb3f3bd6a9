import StatContract.Code.Expr

/-!
# The statistics library of the harness

Generated code reaches the library only through the calls built here, so the
name of its module is set in one place. The tests for comparisons and the
matrix operations that the harness offers are tabulated here too.
-/

namespace StatContract

/-- The alternative hypothesis of a binomial test. -/
inductive Alternative where
  | twoSided | less | greater
  deriving DecidableEq, Repr

def Alternative.text : Alternative → String
  | twoSided => "two-sided"
  | less => "less"
  | greater => "greater"

/-- The alternative under which a claimed comparison is rejected. Nothing
rejects the claim that two probabilities differ. -/
def CmpOp.alternative? : CmpOp → Option Alternative
  | eq => some .twoSided
  | gt | ge => some .less
  | lt | le => some .greater
  | ne => none

@[simp] theorem CmpOp.alternative?_eq_none_iff (op : CmpOp) :
    op.alternative? = none ↔ op = .ne := by
  cases op <;> simp [alternative?]

/-- The harness function for an operator between matrices. -/
def ArithOp.matrixFunction? : ArithOp → Option String
  | add => some "mm_add"
  | sub => some "mm_sub"
  | mul => some "mm_mul"
  | div | pow => none

/-- The statistics library, by the name of its module. -/
structure Library where
  module : String := "AxProf"
  deriving DecidableEq, Repr, Inhabited

namespace Library

/-- A call of a library function. -/
def function (lib : Library) (f : String) (args : List Code) : Code :=
  .call (.attr (.name lib.module) f) args

/-- The p-value of a binomial test. -/
def binomialTest (lib : Library) (count trials probability : Code) (alternative : String) : Code :=
  lib.function "binomialTest"
    [count, trials, probability, .keyword "alternative" (.quoted alternative)]

/-- The statistic and the p-value of a t-test on one sample. -/
def tTest (lib : Library) (samples expected : Code) : Code :=
  lib.function "ttest_1samp" [samples, expected]

/-- The p-value of a signed-rank test that differences are centred. -/
def wilcoxonPValue (lib : Library) (differences : Code) : Code :=
  .attr (lib.function "wilcoxon" [differences]) "pvalue"

/-- The p-value of several tests together. -/
def combinePValues (lib : Library) (pvalues : Code) : Code :=
  .item (lib.function "combine_pvalues" [pvalues]) (.nat 1)

/-- Fits a function to measured data. -/
def fitToData (lib : Library) (data function : Code) (inputs : List String) : Code :=
  lib.function "fitFuncToData"
    [data, function, .list (inputs.map .quoted), .name "paramNames"]

/-- Writes measured data to a file. -/
def dumpData (lib : Library) (data : Code) (path dataName : String) : Code :=
  lib.function "dumpObtainedData"
    [data, .quoted path, .name "paramNames", .keyword "dataName" (.quoted dataName)]

end Library

end StatContract
