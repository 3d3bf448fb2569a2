/-! The simple lower-case mapping of Unicode 15. Identifiers are looked up without regard to case,
so two logical names that differ only in case share one identifier. -/
namespace BlockProgram.Text

/-- Every code point whose simple lower-case form differs from it: by how much the code points in a
run differ, how far away their lower-case forms lie, and the first and the last code point of each
run. -/
def lowercaseRuns : List (Nat × Int × List Nat) := [
  (1,32,[65,90,192,214,216,222,913,929,931,939,1040,1071,65313,65338,71840,71871,93760,93791]), (2,1,[256,302,306,310,
  313,327,330,374,377,381,386,388,391,391,395,395,401,401,408,408,416,420,423,423,428,428,431,431,435,437,440,440,444,
  444,453,453,456,456,459,475,478,494,498,500,504,542,546,562,571,571,577,577,582,590,880,882,886,886,984,1006,1015,
  1015,1018,1018,1120,1152,1162,1214,1217,1229,1232,1326,7680,7828,7840,7934,8579,8579,11360,11360,11367,11371,11378,
  11378,11381,11381,11392,11490,11499,11501,11506,11506,42560,42604,42624,42650,42786,42798,42802,42862,42873,42875,
  42878,42886,42891,42891,42896,42898,42902,42920,42932,42946,42951,42953,42960,42960,42966,42968,42997,42997]), (1,
  -199,[304,304]), (1,-121,[376,376]), (1,210,[385,385]), (1,206,[390,390]), (1,205,[393,394,403,403]), (1,79,[398,
  398]), (1,202,[399,399]), (1,203,[400,400]), (1,207,[404,404]), (1,211,[406,406,412,412]), (1,209,[407,407]), (1,
  213,[413,413]), (1,214,[415,415]), (1,218,[422,422,425,425,430,430]), (1,217,[433,434]), (1,219,[439,439]), (1,2,
  [452,452,455,455,458,458,497,497]), (1,-97,[502,502]), (1,-56,[503,503]), (1,-130,[544,544,1021,1023]), (1,10795,
  [570,570]), (1,-163,[573,573]), (1,10792,[574,574]), (1,-195,[579,579]), (1,69,[580,580]), (1,71,[581,581]), (1,116,
  [895,895]), (1,38,[902,902]), (1,37,[904,906]), (1,64,[908,908,68736,68786]), (1,63,[910,911]), (1,8,[975,975,5104,
  5109]), (1,-60,[1012,1012]), (1,-7,[1017,1017,8172,8172]), (1,80,[1024,1039]), (1,15,[1216,1216]), (1,48,[1329,1366,
  11264,11311]), (1,7264,[4256,4293,4295,4295,4301,4301]), (1,38864,[5024,5103]), (1,-3008,[7312,7354,7357,7359]), (1,
  -7615,[7838,7838]), (1,-8,[7944,7951,7960,7965,7976,7983,7992,7999,8008,8013,8040,8047,8072,8079,8088,8095,8104,
  8111,8120,8121,8152,8153,8168,8169]), (2,-8,[8025,8031]), (1,-74,[8122,8123]), (1,-9,[8124,8124,8140,8140,8188,
  8188]), (1,-86,[8136,8139]), (1,-100,[8154,8155]), (1,-112,[8170,8171]), (1,-128,[8184,8185]), (1,-126,[8186,8187]),
  (1,-7517,[8486,8486]), (1,-8383,[8490,8490]), (1,-8262,[8491,8491]), (1,28,[8498,8498]), (1,16,[8544,8559]), (1,26,
  [9398,9423]), (1,-10743,[11362,11362]), (1,-3814,[11363,11363]), (1,-10727,[11364,11364]), (1,-10780,[11373,11373]),
  (1,-10749,[11374,11374]), (1,-10783,[11375,11375]), (1,-10782,[11376,11376]), (1,-10815,[11390,11391]), (1,-35332,
  [42877,42877]), (1,-42280,[42893,42893]), (1,-42308,[42922,42922,42926,42926]), (1,-42319,[42923,42923]), (1,-42315,
  [42924,42924]), (1,-42305,[42925,42925]), (1,-42258,[42928,42928]), (1,-42282,[42929,42929]), (1,-42261,[42930,
  42930]), (1,928,[42931,42931]), (1,-48,[42948,42948]), (1,-42307,[42949,42949]), (1,-35384,[42950,42950]), (1,40,
  [66560,66599,66736,66771]), (1,39,[66928,66938,66940,66954,66956,66962,66964,66965]), (1,34,[125184,125217])]

def inRuns (stride : Nat) : List Nat → Nat → Bool
  | first :: last :: rest, n =>
    first ≤ n && n ≤ last && (n - first) % stride == 0 || inRuns stride rest n
  | _, _ => false

def lowerChar (c : Char) : Char :=
  if c.toNat < 128 then c.toLower
  else
    match lowercaseRuns.find? fun e => inRuns e.1 e.2.2 c.toNat with
    | some e => Char.ofNat (Int.toNat (c.toNat + e.2.1))
    | none => c

def lower (s : String) : String := s.map lowerChar

end BlockProgram.Text
