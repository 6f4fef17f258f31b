import ClassScript.CharSet

/-!
Simple case folding, as data: which characters differ in case alone.
-/

namespace ClassScript.Unicode

/-- The characters that differ in case from one other character alone: the step from the last pair
and the distance in the pair, by turns. -/
def casePairText : String :=
  String.join [
    "CnBgbBgbBgbBgbBgbBgbBgbBgbBgbBgcBgbBgbBgbBgbBgbBgbBgcBgbBgbBgbBgbBgbBgbBgDyBgbBgbBgbBgbBgcBgb",
    "BgbBgbBgbBgbBgbBgbBgbBgbBgbBgbBgbBgbBgbBgbBgbBgcBgbBgbBgbBgbBgbBgbBgbLGxBgErbbcbcbcbcbcbcbcbc",
    "bcbcbcbcbcbcbcbcbcbcbcbcbcbcbcbebcbcbdbcbcbcbcbcbcbcbdbcbcbcbcbcbcbcbcbcbcbcbcbcbcbcbcbcbcbcb",
    "cbcbcbdbcbcbdHnbIcbbcbcHybbcHxbHxbbdDbbHubHvbbcHxbHzbDtbIdbIbbbcGhbCKYzbIdbIfbFabIgbbcbcbcIkb",
    "bcIkdbcIkbbcIjbIjbbcbcIlbbebdCeobcbcbcbcbcbcbcbdbcbcbcbcbcbcbcbcbgbebcbcbcbcbcbcbcbcbcbcbcbcb",
    "cbcbcbcbcbcbcbebcbcbcbcbcbcbcbcbiPZfbbdPZcbPZzbPZzbbdCrbCtbbcbcbcbcbcPYtbPYqbPYskCKPrfCKPndCK",
    "QpbCKOebCKPgeCKPgbPXfbCKPdfPXlmPWpfCKPffCKOgwCKNlbCKNiIcbcbebfFabFabFacEmhBmcBlbBlbBlcCmcClbC",
    "lbKShbBgcBgbBgcBgbBgeBgcBgbBgbBgfBgbBgcBgbBgcBgbBgfKRrBfijbcbcbcbcbcbcbcbcbcbcbcbehfbdbgDcbDc",
    "bDcbDcbDcbDcbDcbDcbDcbDcbDcbDcbDcbDcbDcbDcbBgbBgcBgcBgbBgbBgbBgbBgbBgbBgbBgbBgcBgbBgdBgbBgbBg",
    "bBgbBgbBgbBgcBgbBgbBgbBgbBgBxbebcbcbcbcbcbcbcbcbcbcbcbcbcbcbkbcbcbcbcbcbcbcbcbcbcbcbcbcbcbcbc",
    "bcbcbcbcbcbcbcbcbcbcbcpbbcbcbcbcbcbcbdbcbcbcbcbcbcbcbcbcbcbcbcbcbcbcbcbcbcbcbcbcbcbcbcbcbcbcb",
    "cbcbcbcbcbcbcbcbcbcbcbcbcbcbcbcbcbcbcbcbdBwbBwbBwbBwbBwbBwbBwbBwbBwbBwbBwbBwbBwbBwbBwbBwbBwbB",
    "wbBwbBwbBwbBwbBwbBwbBwbBwbBwbBwbBwbBwbBwbBwbBwbBwbBwbBwbBwbBwEHeKTkbKTkbKTkbKTkbKTkbKTkbKTkbK",
    "TkbKTkbKTkbKTkbKTkbKTkbKTkbKTkbKTkbKTkbKTkbKTkbKTkbKTkbKTkbKTkbKTkbKTkbKTkbKTkbKTkbKTkbKTkbKT",
    "kbKTkbKTkbKTkbKTkbKTkbKTkbKTkcKTkgKTkdELsbELsbELsbELsbELsbELsbELsbELsbELsbELsbELsbELsbELsbELs",
    "bELsbELsbELsbELsbELsbELsbELsbELsbELsbELsbELsbELsbELsbELsbELsbELsbELsbELsbELsbELsbELsbELsbELsb",
    "ELsbELsbELsbELsbELsbELsdELsbELsbELsZxCFMubCFMubCFMubCFMubCFMubCFMubCFMubCFMubCFMubCFMubCFMubC",
    "FMubCFMubCFMubCFMubCFMubCFMubCFMubCFMubCFMubCFMubCFMubCFMubCFMubCFMubCFMubCFMubCFMubCFMubCFMu",
    "bCFMubCFMubCFMubCFMubCFMubCFMubCFMubCFMubCFMubCFMubCFMubCFMubCFMubCFMubCFMubCFMubCFMubCFMubCF",
    "MubCFMubCFMubCFMubCFMubCFMubCFMubCFMubCFMubCFMubCFMubCFMubCFMubCFMubCFMubCFMubCFMubCFMubCFMub",
    "CFMubCFMubCFMubCFMubCFMubCFMubCFMubCFMubCFMubCFMubCFMubCFMubCFMubibibibibibiDGmbJgCAGyeFQsrCA",
    "IyEkbcbcbcbcbcbcbcbcbcbcbcbcbcbcbcbcbcbcbcbcbcbcbcbcbcbcbcbcbcbcbcbcbcbcbcbcbcbcbcbcbcbcbcbcb",
    "cbcbcbebcbcbcbcbcbcbcbcbcbcbcbcbcbcbcbcbcbcbcbcbcbcbcbcbcbmbcbcbcbcbcbcbcbcbcbcbcbcbcbcbcbcbc",
    "bcbcbcbcbcbcbcbcbcbcbcbcbcbcbcbcbcbcbcbcbcbcbcbcbcbcbcbcbcbcbcibibibibibibibijibibibibibilibi",
    "bibibibibibijibibibibibibibijibibibibibimicicicijibibibibibibibijCwbCwbDibDibDibDibDwbDwbEybE",
    "ybEibEibEwbEwdibibibibibibibijibibibibibibibijibibibibibibibijibicjqjnibipibiehojMhBcBuqbqbqb",
    "qbqbqbqbqbqbqbqbqbqbqbqbqubBFnBabBabBabBabBabBabBabBabBabBabBabBabBabBabBabBabBabBabBabBabBab",
    "BabBabBabBabBaCSvBwbBwbBwbBwbBwbBwbBwbBwbBwbBwbBwbBwbBwbBwbBwbBwbBwbBwbBwbBwbBwbBwbBwbBwbBwbB",
    "wbBwbBwbBwbBwbBwbBwbBwbBwbBwbBwbBwbBwbBwbBwbBwbBwbBwbBwbBwbBwbBwbBwBxbhbcbcbhbdblbcbcbcbcbcbc",
    "bcbcbcbcbcbcbcbcbcbcbcbcbcbcbcbcbcbcbcbcbcbcbcbcbcbcbcbcbcbcbcbcbcbcbcbcbcbcbcbcbcbcbcbjbcbfb",
    "BTYkbcbcbcbcbebcbcbcbcbcbcbcbcbcbcbcbcbcbcbcbcbubcbcbcbcbcbcbcbcbcbcbcbcbcbFgbcbcbcbcbcbcbebc",
    "bcbcbcbcbcbcbcbcbcbcbcbcbcbcbcbcbcbcbcbcbcbcbcbcbcbcbcbcbcblbcbdbcbcbcbcbfbfbcbcBwcbcbcbcbcbc",
    "bcbcbcbcblBJsbbcbcbcbcbcbcbcbfbcbdbebgbcbcbBbbBFLwbBOmBgbBgbBgbBgbBgbBgbBgbBgbBgbBgbBgbBgbBgb",
    "BgbBgbBgbBgbBgbBgbBgbBgbBgbBgbBgbBgbBgBVaBobBobBobBobBobBobBobBobBobBobBobBobBobBobBobBobBobB",
    "obBobBobBobBobBobBobBobBobBobBobBobBobBobBobBobBobBobBobBobBobBobBoFhBobBobBobBobBobBobBobBob",
    "BobBobBobBobBobBobBobBobBobBobBobBobBobBobBobBobBobBobBobBobBobBobBobBobBobBobBobBoGbBnbBnbBn",
    "bBnbBnbBnbBnbBnbBnbBnbBncBnbBnbBnbBnbBnbBnbBnbBnbBnbBnbBnbBnbBnbBnbBncBnbBnbBnbBnbBnbBnbBncBn",
    "bBnCQdCmbCmbCmbCmbCmbCmbCmbCmbCmbCmbCmbCmbCmbCmbCmbCmbCmbCmbCmbCmbCmbCmbCmbCmbCmbCmbCmbCmbCmb",
    "CmbCmbCmbCmbCmbCmbCmbCmbCmbCmbCmbCmbCmbCmbCmbCmbCmbCmbCmbCmbCmbCmGcBgbBgbBgbBgbBgbBgbBgbBgbBg",
    "bBgbBgbBgbBgbBgbBgbBgbBgbBgbBgbBgbBgbBgEGpBgbBgbBgbBgbBgbBgbBgbBgbBgbBgbBgbBgbBgbBgbBgbBgbBgb",
    "BgbBgbBgbBgbBgbBgbBgbBgbBgbBgbBgbBgbBgbBgbBgBGJxBgbBgbBgbBgbBgbBgbBgbBgbBgbBgbBgbBgbBgbBgbBgb",
    "BgbBgbBgbBgbBgbBgbBgbBgbBgbBgbBgbBgbBgbBgbBgbBgbBgBULlBibBibBibBibBibBibBibBibBibBibBibBibBib",
    "BibBibBibBibBibBibBibBibBibBibBibBibBibBibBibBibBibBibBibBibBi"]

/-- The groups of three characters or more that differ in case alone. -/
def largeCaseGroups : List (List Nat) := [
  [75, 107, 8490], [83, 115, 383], [181, 924, 956], [197, 229, 8491], [452, 453, 454],
  [455, 456, 457], [458, 459, 460], [497, 498, 499], [837, 921, 953, 8126], [914, 946, 976],
  [917, 949, 1013], [920, 952, 977, 1012], [922, 954, 1008], [928, 960, 982], [929, 961, 1009],
  [931, 962, 963], [934, 966, 981], [937, 969, 8486], [1042, 1074, 7296], [1044, 1076, 7297],
  [1054, 1086, 7298], [1057, 1089, 7299], [1058, 1090, 7300, 7301], [1066, 1098, 7302],
  [1122, 1123, 7303], [7304, 42570, 42571], [7776, 7777, 7835]]

/-- Pairs from steps and distances in turn, the first of which starts at `n`. -/
def pairsFrom (n : Nat) : List Nat → List (List Nat)
  | step :: distance :: rest => [n + step, n + step + distance] :: pairsFrom (n + step) rest
  | _ => []

/-- All groups of characters that differ in case alone. -/
def caseGroups : List (List Nat) :=
  largeCaseGroups ++ pairsFrom 0 (CharSet.numbersFrom 0 casePairText.toList)

/-- The set with all characters that differ from a member in case alone. -/
def withCaseVariants (s : CharSet) : CharSet :=
  let groups := caseGroups.filter fun group => group.any (CharSet.covers · s.ranges)
  .ofRanges (s.ranges ++ groups.flatten.map fun n => (n, n))

/-- The set with the variants of the twenty-six letters that are members. -/
def withLetterVariants (s : CharSet) : CharSet :=
  let lower := s.ranges.filterMap (CharSet.overlap? (97, 122))
  let upper := s.ranges.filterMap (CharSet.overlap? (65, 90))
  .ofRanges (s.ranges ++ lower.map (fun (a, b) => (a - 32, b - 32)) ++
    upper.map fun (a, b) => (a + 32, b + 32))

end ClassScript.Unicode
