import LineEditor.Unicode.Packed

/-!
# Binary properties

Each property is a set of code points, kept as packed runs (`CodeSet.ofPacked`). A property is
looked up by any of its names, written in lower case without blanks, hyphens or underscores.
-/

namespace LineEditor.Unicode

def asciiHexDigitRuns : List String :=
  ["BwkhgBag"]

def alphabeticRuns : List String :=
  ["CnBagBaBvbkbebfxbBfbRqemofhbbbDibBqfbccebbgbbdbbbubDfbFjiGkbBmcbgBpBnobbbcbcbbiBbeeBdlfCebho",
   "DybieiedkdcbqBwnDxyBhjcebfycttzhlfybgrBqkmdhgCybqbdepntbicccwbhbbdediccccbbibecbfmckbedbgecc",
   "wbhbcbcbcefecccebhebbrgldbjbdbwbhbcbfdjbdbcdbpeveedbicccwbhbcbfdiccccjcecbfnbqcbgddbedcbbbcd",
   "cdddmefddbddbgbBonbdbxbqdibdbdicbdcbceBcebibdbxbkbfdibdbdicgcbendmnbdbBpcibdbdbbfehfwgbdbsdy",
   "bjbbchigbbbiscnCgfhgbBzcbbbfbybbbtbdcfbbgboeBgbClibBketeqbBkCpCdbbcfqCmkecBmbbfbcBrbMvbechbb",
   "becBpbecBhbechbbbecpbCfbecCpBlqqDicgdXwcrbBafCxdlhulvmumnbdbcmCactobebCpDlhBrfCskBfbmejxBecf",
   "lBseBaCcBceClcuBybxcldBxCabpbiBzBqcekBsbloCdwdkBkcjhBrcdBpebgbcdbfHkBnolKscgcBmcgcibbbbbbbBf",
   "cCbbhbbddbhdecgenfdbhEmbnbqnDxbebckbbdfgbbbbbbeblceffebrBpBFhCaCRuIvgedcmBmbbfbcCehbqxjhbhbh",
   "bhbhbhbhbhbBgBvbSbdzjhfcfeDigdbDmbefBrbDqrBgBwqTsJToCmBGUfCpBucKjdqkcuBvfidEjBnjcDzcCmfcbbbf",
   "yubBhyCamCqbbBsgdbbdkBhfBjnBddBzbmpbqqkfbCdjosxdCrbbbbydcqcelgcgcgjhbhbBrbogEtvQNsmxeBxMNcOc",
   "cEcBmhmffmbnbfbbbcbcbEeBhNzsCmcCcBomEmfbFfBkBagBalDldgcgcgcdBjmbBabtbcbpcoBiEtCrCbKhBddBxBvB",
   "gnBefBrfBecBkeibfBqGcsBkeBkeBoiCamlbpbhbcblbpbhbcCpLzjwkiygbBqbjCrgcbbBsbcdbcxkxjBfCntbckwkB",
   "aCsCegcCmebcfibdbBdBqBddBdBjibBcBbCckwktnsEgCvCdBznBznBoNgBqbcdcDaBdkbiwBqsBuvBbxjCsBrfkCfjb",
   "nzxBzreiBjdbjCmbejckbbbBjsbBicbgeCkhbbbebpbkhCfxebicccwbhbcbfdiccccdbgbfhGaCobdbeudBeCoccbbH",
   "cCcchzgBiClbbdbChCccbCtBbcovhHdCfDzCmBficbcibcbBebcccceDpicBucgbbbcBbBzckrCufbsCvKdjbBtbhbbB",
   "xBecwboCvhbcbBsdbbcbdbbccygbcbBlbcbebbMpxjrbBpddEhbDbBJmDyEhrHoDXkDtpBPgrgFYvWlMUbVxhBfrDbrB",
   "esBwqeBfvftBAmCmEyCxeCfhrCmcbbmcoJCaiBVqBqjNFrebhbcbLfpbBddcboeiPgDKuEdfndjhkebIWfDhbCtbccbc",
   "ccebmbbbhbCnbecibhbBcbebfbbdhbNcczbzbBfbzbBfbzbBfbzbBfbzbiCSyBfggIfhbrchbcbffCkBhbEiBtkhqbMj",
   "BesBsSqBcBDchbebcbpbHpChCqdbdbBUiebBbbcbbcbbkbebbbbgbebbbbbbdbcbbcbbbbbbbbbbcbbcebhbebebbbkb",
   "rfdbfbrYeBagBagBaFMkCLFcBgGDugIocINqoLBlEPjUwCFyHHzfGFg"]

def bidiControlRuns : List String :=
  ["CIebJVlcBafCde"]

def bidiMirroredRuns : List String :=
  ["BocsbbbBcbbbBdbbbBtbpbFMseCUncDQqckcCccocGvbHkedgdbdcdebebbbbejfbbsfejcbbbicBfcefbjcctfcjfcc",
   "eycqieuchcBPtoCwbcebcbdfefddoPnwcgboibhgdbefbccfebbdcckgccmtbecbbbcbbefcgdyclceebccceBrcibBo",
   "fbbbdffdebdfbbJwbTvedcbcocckBriQlkciDACrgfcGgcsbbbBcbbbBdbbbbcbcDDPnbCfbCfbCfbCfb"]

def caseIgnorableRuns : List String :=
  ["BnbgblbBjbbbCtbebbbebccTjHkecebjcbbJrhHzbfbBxBtbbbcbcbbBsblgklbbBjbkvqbDxibkbeBhbbbBeBbDnlCg",
   "lebcbyyBrdBsbhcgiBpCgCdbbbeiebdhkcnbpbCgbeeibucBabccCfbececcddbBecdblcCfbefbcebucwgbbCgbcbbe",
   "ibhclcBebCjbmbBybdbCdbbdfdbehclcBdbCgbcbgbfcucBccCfceeibucBdbCubhdbbDmbchljDubcjjbbhCvcBbbbb",
   "bbCdobfbcflbBkjbDyebgbccczcedqenbccgbpbDqbXkdBKkdBdcBecBecCmcbhibcldbfbBtfBzbCncBibEodecjbgd",
   "IlccbCgbbhbbbbcigkcbBnbiBfBxeBwbbfbbfbBojmcBgeccbdCebbcdbbdCgiccCmgDedbnbhebgbdcByClnbBiDxRd",
   "bbdldndndncmfickbcbcfBxfbkbbnbqnBzBhEJrcEjdEvbpbDsBgBvbSbbBkedffbDpgDpdBQBubBWcgKkbDuebkbbBc",
   "eDccoBiDabxdDzddcibdbebzcfbFvcBasnbBmizlBudBwbceccrbvcCogccccmbibBjblbBzbbdccfcbbBbbocfcbbDw",
   "fjdErbcbebBDZsbFrrWbqdbmqBibcbGnbhbgblbBjbbbBvbBtcCpbvdTtbIsbFtfBNpgbBqbjWkdbcfeBodebGjcWbeO",
   "xcDcdCslBxeEtbCcpBpbcckdBxecccbebkbBydBkfbiCkbmcCajkecbDrdcbbcgbcbGbbdivcCfcdbBlhdfHnicdbbxb",
   "DggbbecbcJeegcbcBbcDhicbbcEcbbbcgbbDxdcebfJzjbcJwcbbebFoeccebBgkBogceibjgcdBunbcPqhbgbbDewch",
   "bcbcEsgdbbcbhbbCucdbbbNjclcCaffbbbHYbrgpURqfChhjeBNvbClrCmcbcYGpebhbcEUgcbeGYuBucxUydjqchBee",
   "FsdCYdCdeByibobwfbpCAihbrchbcbffCkBhbGeoOebCjeTnfBMehEfiEBffBSXXpbBeDsEyJg"]

def casedRuns : List String :=
  ["CnBagBaBvbkbebfxbBfbHnbeeIabBkhcBefDsbBqecccebbgbbdbbbubDfbFjiGkbBmjBpEFfBmbbfbcBrbeZwDicgDF",
   "ujhBrcdCmHkCmKscgcBmcgcibbbbbbbBfcCbbhbbddbhdecgenfdbhEmbnbqnDxbebckbbdfgbbbbbbebgebceffebrB",
   "gdcBFlCaCRuIvgedcmBmbbfbBTWcBusBeFcDydebChfcbbbfyfbdBFpBrbogDcBEAihmfBNtBagBaBTtDcDsBkeBkEml",
   "bpbhbcblbpbhbcRjbcdbBqbjBUzBznBzEKzCmBGIqCmBMLkDhbCtbccbcccebmbbbhbCnbecibhbBcbebfbbdhbNcczb",
   "zbBfbzbBfbzbBfbzbBfbzbiCSykbuggKbCkDGkCqDAaBagBagBa"]

def changesWhenCasefoldedRuns : List String :=
  ["CnBaDmbkxbiBgbbbbbbbbbbbbbbbbbbbbbbbbbbbbbbbbbbbbbbbbbbbbbbbbbbbbbbbcbbbbbbbbbbbbbbbbcbbbbbb",
   "bbbbbbbbbbbbbbbbbbbbbbbbbbbbbbbbbbbbbbbcbbbbbbbcbbbcbdcebcbddcbcbbbbbcbbcbbcbdbbbcdbhcbcbcbb",
   "bbbbbbbbbbbbbbcbbbbbbbbbbbbbbbbbccbbbdbbbbbbbbbbbbbbbbbbbbbbbbbbbbbbbbbbbbbbbbbbbbbbbbbbbbbb",
   "bbbbhcbccbbebbbbbbbbJmbBqbbbdbibgbbdbbbcbrbjwbmddcbbbbbbbbbbbbbbbbbbbbbbbbbcccbbbccBzBwbbbbb",
   "bbbbbbbbbbbbbbbbbbbbbbbbbbbbjbbbbbbbbbbbbbbbbbbbbbbbbbbbbbbbbbbbbbbbbbbbbbbbbbbbbbbcbbbbbbbb",
   "bbbbcbbbbbbbbbbbbbbbbbbbbbbbbbbbbbbbbbbbbbbbbbbbbbbbbbbbbbbbbbbbbbbbbbbbbbbbbbbbbbbbbbbbbbbb",
   "bbbbbbbbcBmBwbEFgBmbbfbBFegDFujhBrcdMibbbbbbbbbbbbbbbbbbbbbbbbbbbbbbbbbbbbbbbbbbbbbbbbbbbbbb",
   "bbbbbbbbbbbbbbbbbbbbbbbbbbbbbbbbbbbbbbbbbbbbbbbbbbbbbbbbbbbbbbbbbbbbbbbbbbbbbbbbbbbbbbbbbbbb",
   "bbbfccbbbbbbbbbbbbbbbbbbbbbbbbbbbbbbbbbbbbbbbbbbbbbbbbbbbbbbbbbbbbbbbbbbbbbbbbbbbbbbbbbbbbbb",
   "bbbbbbbbbbbjiigkiiiiglbbbbbbbiiqBwcdcgfdcglemffdcgLlbdcgbBtqtbBFmBaCSuBwBwbbdcbbbbbbebbcbidb",
   "bbbbbbbbbbbbbbbbbbbbbbbbbbbbbbbbbbbbbbbbbbbbbbbbbbbbbbbbbbbbbbbbbbbbbbbbbbbbbbbbbbbbbbbbbbbb",
   "bbbbbibbbebBTYjbbbbbbbbbbbbbbbbbbbbbbbbbbbbbbbbbbbbbbbbbbbbbtbbbbbbbbbbbbbbbbbbbbbbbbbbbFfbb",
   "bbbbbbbbbbbdbbbbbbbbbbbbbbbbbbbbbbbbbbbbbbbbbbbbbbbbbbbbbbbbbbbbbbbbbbbbbkbbbbcbbbbbbbbebbbc",
   "bbbdbbbbbbbbbbbbbbbbbbbbfbfbbbbbbbbbbbbbbbebbgbfbbbBcbBIgDcBEAihmfBNtBaBUzBoFgBkGalbpbhbcCQc",
   "BzENlBgBGJwBgBULkBi"]

def changesWhenCasemappedRuns : List String :=
  ["CnBagBaCgbkxbBfbCmbDgbnbococcbbeDpbsgBbbcbbbcdcbbbcbfcbbccbhbcbbcdgfbkcGkbBqeccddbbgbbdbbbub",
   "BvdBhbfbFdiGkbBmkBnEFgBmbbfbcBrcdZwDicgDFujhBrcdHdbdbqbEjGacbbEocgcBmcgcibbbbbbbBfcCbbhbbddb",
   "hdecgenfdbhLlbdcgbBbbrBgdcBFlCaCRuEjbcbchDyhedcmBmbbfbBTWcBusBcFeocCkjpddcfbzbBbfceeBbcBHcbB",
   "cDcBEAihmfBNtBagBaBTtDcDsBkeBkEmlbpbhbcblbpbhbcCOpBznBzEKzCmBGIqCmBUKeCq"]

def changesWhenLowercasedRuns : List String :=
  ["CnBaDxxbhBhbbbbbbbbbbbbbbbbbbbbbbbbbbbbbbbbbbbbbbbbbbbbbbbbbbbbbbbcbbbbbbbbbbbbbbbcbbbbbbbbb",
   "bbbbbbbbbbbbbbbbbbbbbbbbbbbbbbbbbbbbbcbbbbdcbbbcbdcebcbddcbcbbbbbcbbcbbcbdbbbcdbhcbcbcbbbbbb",
   "bbbbbbbbbbcbbbbbbbbbbbbbbbbbccbbbdbbbbbbbbbbbbbbbbbbbbbbbbbbbbbbbbbbbbbbbbbbbbbbbbbbbbbbbbbb",
   "hcbccbbebbbbbbbbLdbbbdbibgbbdbbbcbrbjBjbibbbbbbbbbbbbbbbbbbbbbbbfbcbbccBzBwbbbbbbbbbbbbbbbbb",
   "bbbbbbbbbbbbbbbbjbbbbbbbbbbbbbbbbbbbbbbbbbbbbbbbbbbbbbbbbbbbbbbbbbbbbbbcbbbbbbbbbbbbcbbbbbbb",
   "bbbbbbbbbbbbbbbbbbbbbbbbbbbbbbbbbbbbbbbbbbbbbbbbbbbbbbbbbbbbbbbbbbbbbbbbbbbbbbbbbbbbbbbbcBmE",
   "HdBmbbfbBBuDiDGsBrcdMibbbbbbbbbbbbbbbbbbbbbbbbbbbbbbbbbbbbbbbbbbbbbbbbbbbbbbbbbbbbbbbbbbbbbb",
   "bbbbbbbbbbbbbbbbbbbbbbbbbbbbbbbbbbbbbbbbbbbbbbbbbbbbbbbbbbbbbbbbbbbbbbbbbbbbbbbjbbbbbbbbbbbb",
   "bbbbbbbbbbbbbbbbbbbbbbbbbbbbbbbbbbbbbbbbbbbbbbbbbbbbbbbbbbbbbbbbbbbbbbbbbbbbbbbbbbbbbjiigkii",
   "iiglbbbbbbbiiyiiiiiiflflemflfLlbdcgbBtqtbBFmBaCSuBwBwbbdcbbbbbbebbcbidbbbbbbbbbbbbbbbbbbbbbb",
   "bbbbbbbbbbbbbbbbbbbbbbbbbbbbbbbbbbbbbbbbbbbbbbbbbbbbbbbbbbbbbbbbbbbbbbbbbbbbibbbebBTYjbbbbbb",
   "bbbbbbbbbbbbbbbbbbbbbbbbbbbbbbbbbbbbbbbtbbbbbbbbbbbbbbbbbbbbbbbbbbbFfbbbbbbbbbbbbbdbbbbbbbbb",
   "bbbbbbbbbbbbbbbbbbbbbbbbbbbbbbbbbbbbbbbbbbbbbbbbbbbbkbbbbcbbbbbbbbebbbcbbbdbbbbbbbbbbbbbbbbb",
   "bbbfbfbbbbbbbbbbbbbbbebbgbfbbbBcbBHAhBaBUzBoFgBkGalbpbhbcCQcBzENlBgBGJwBgBULkBi"]

def changesWhenTitlecasedRuns : List String :=
  ["DtBaCgbBpybibbbbbbbbbbbbbbbbbbbbbbbbbbbbbbbbbbbbbbbbbbbbbbbbbbbbbbbbcbbbbbbbbbbbbbbcbbbbbbbb",
   "bbbbbbbbbbbbbbbbbbbbbbbbbbbbbbbbbbbbbbcbbbbdcbbbcbdbfbcbdcdbcbbbbbcbebcbdbbbcbdbbbebbcbcbbbb",
   "bbbbbbbbbbbbbcbbbbbbbbbbbbbbbbbdbbbbdbbbbbbbbbbbbbbbbbbbbbbbbbbbbbbbbbbbbbbbdbbbbbbbbbbbbbbb",
   "bbibccbbebbbbbbbbgbcbbbcdcbbbcbfcbbccbhbcbbcdgfbkcGkbBrbbbdbddsbBbBjbcddbbbbbbbbbbbbbbbbbbbb",
   "bbbfbbcbcbCaBwbbbbbbbbbbbbbbbbbbbbbbbbbbbbbbbbbbjbbbbbbbbbbbbbbbbbbbbbbbbbbbbbbbbbbbbbbbbbbb",
   "bbbbbbbbbbcbbbbbbbbbbbbcbbbbbbbbbbbbbbbbbbbbbbbbbbbbbbbbbbbbbbbbbbbbbbbbbbbbbbbbbbbbbbbbbbbb",
   "bbbbbbbbbbbbbbbbbbbbbbbbbbbbBxBnFMegDFujJgbdbqbEkbbbbbbbbbbbbbbbbbbbbbbbbbbbbbbbbbbbbbbbbbbb",
   "bbbbbbbbbbbbbbbbbbbbbbbbbbbbbbbbbbbbbbbbbbbbbbbbbbbbbbbbbbbbbbbbbbbbbbbbbbbbbbbbbbbbbbbbbbbb",
   "bbbbbbbbbbbbbhfbbbbbbbbbbbbbbbbbbbbbbbbbbbbbbbbbbbbbbbbbbbbbbbbbbbbbbbbbbbbbbbbbbbbbbbbbbbbb",
   "bbbbbbbbbbbbbbbbbjigkiiiigkiiiiociiiiiifbcgbddbciecciikdbcNebBhqebBGlBaCTqBwbbdcbbbbbbgbcbkb",
   "bbbbbbbbbbbbbbbbbbbbbbbbbbbbbbbbbbbbbbbbbbbbbbbbbbbbbbbbbbbbbbbbbbbbbbbbbbbbbbbbbbbbbbbbbbbb",
   "bbbbbbibbbebmBmbbfbBTWdbbbbbbbbbbbbbbbbbbbbbbbbbbbbbbbbbbbbbbbbbbbbbtbbbbbbbbbbbbbbbbbbbbbbb",
   "bbbbFfbbbbbbbbbbbbbdbbbbbbbbbbbbbbbbbbbbbbbbbbbbbbbbbbbbbbbbbbbbbbbbbbbbbbbbbbbbbkbbbcbbbbbb",
   "bbbebebbccbbbbbbbbbbbbbbbbbbblbbbbbbbbbbbbbbbebbbgbfbbbBcbBHcbBcDcBEAihmfBOzBaBVhBoFgBkFzlbp",
   "bhbcCRbBzEMfBgBGJwBgBULmBi"]

def changesWhenUppercasedRuns : List String :=
  ["DtBaCgbBpybibbbbbbbbbbbbbbbbbbbbbbbbbbbbbbbbbbbbbbbbbbbbbbbbbbbbbbbbcbbbbbbbbbbbbbbcbbbbbbbb",
   "bbbbbbbbbbbbbbbbbbbbbbbbbbbbbbbbbbbbbbcbbbbdcbbbcbdbfbcbdcdbcbbbbbcbebcbdbbbcbdbbbfcbcbcbbbb",
   "bbbbbbbbbbbcbbbbbbbbbbbbbbbbbcbcbbdbbbbbbbbbbbbbbbbbbbbbbbbbbbbbbbbbbbbbbbdbbbbbbbbbbbbbbbbb",
   "ibccbbebbbbbbbbgbcbbbcdcbbbcbfcbbccbhbcbbcdgfbkcGkbBrbbbdbddsbBbBjbcddbbbbbbbbbbbbbbbbbbbbbb",
   "bfbbcbcbCaBwbbbbbbbbbbbbbbbbbbbbbbbbbbbbbbbbbbjbbbbbbbbbbbbbbbbbbbbbbbbbbbbbbbbbbbbbbbbbbbbb",
   "bbbbbbbbcbbbbbbbbbbbbcbbbbbbbbbbbbbbbbbbbbbbbbbbbbbbbbbbbbbbbbbbbbbbbbbbbbbbbbbbbbbbbbbbbbbb",
   "bbbbbbbbbbbbbbbbbbbbbbbbbbBxBnEHcBrcdBDggDFujJgbdbqbEkbbbbbbbbbbbbbbbbbbbbbbbbbbbbbbbbbbbbbb",
   "bbbbbbbbbbbbbbbbbbbbbbbbbbbbbbbbbbbbbbbbbbbbbbbbbbbbbbbbbbbbbbbbbbbbbbbbbbbbbbbbbbbbbbbbbbbb",
   "bbbbbbbbbbbbbbbbbbhfbbbbbbbbbbbbbbbbbbbbbbbbbbbbbbbbbbbbbbbbbbbbbbbbbbbbbbbbbbbbbbbbbbbbbbbb",
   "bbbbbbbbbbbbbbbbbbbbbbjigkiiiigkiiiiocCbbcebbbddbcebdecciikdbcebMzbBhqebBGlBaCTqBwbbdcbbbbbb",
   "gbcbkbbbbbbbbbbbbbbbbbbbbbbbbbbbbbbbbbbbbbbbbbbbbbbbbbbbbbbbbbbbbbbbbbbbbbbbbbbbbbbbbbbbbbbb",
   "bbbbbbbbbbbbibbbebmBmbbfbBTWdbbbbbbbbbbbbbbbbbbbbbbbbbbbbbbbbbbbbbbbbbbbbbtbbbbbbbbbbbbbbbbb",
   "bbbbbbbbbbFfbbbbbbbbbbbbbdbbbbbbbbbbbbbbbbbbbbbbbbbbbbbbbbbbbbbbbbbbbbbbbbbbbbbbbbbbbbbkbbbc",
   "bbbbbbbbbebebbccbbbbbbbbbbbbbbbbbbblbbbbbbbbbbbbbbbebbbgbfbbbBcbBHcbBcDcBEAihmfBOzBaBVhBoFgB",
   "kFzlbpbhbcCRbBzEMfBgBGJwBgBULmBi"]

def dashRuns : List String :=
  ["BtbCAubBzbFKjbBNpbDBdgCjbBnbpbPabEOibcbBfcebBcbRebtbEhbCZWacBlbkbGnbFXvb"]

def defaultIgnorableCodePointRuns : List String :=
  ["GrbZxbBBobEGwcCKhcDhfDApfBafBxqGKybCZMpqJfbGebDbjCTLneHWxiBTKZlGBo"]

def deprecatedRuns : List String :=
  ["MrbBYvbDKtbbbDCjcDIjgBAvcBZRYkb"]

def diacriticRuns : List String :=
  ["DqbbbCtbgbebccTjGdbifgrcebjcJtfIbbCdrbBbbbbcbbFeiecFececddCpBbDnlCglBicEwiBpkqBcCjbqbdeBcbCw",
   "bqbEgbqbEgbqbBvdCibqbhbEpbEgbqbEgbqbEfcqbEubEugbbEdbnfCxcBbbbbbbecCodbcCkbEibbcBocefzhbbkcBB",
   "ddBKmcGxljbNjdMbicbBwpclEabpbBmjCccFicCmgDezebgbcdByClDlmBllRdbbdldndndncEXkdMfbTmgEbeDrbBSM",
   "kbmcbbBccDecoBiDydEfcHubBbsCfeBkbDrbmbBkbFtdCneBzbDwfjdEycBDZsbBDpqKkbbbBvbBtcCpbBDkbBTngbBq",
   "bjBFecVzgSbdCslBxeHkbBpbCucEqcCkbCybjdEacGwcDdbqbyhdfHxbdbEtcJrcEwbEocElbKjcJycebGabDfbsbDdb",
   "QfbJybbcDdbIPjpURqfChhBQurDccYGcebhbcLThBucxUyddgiichBeeFMwCkHmhOlbCjeCFwhEfdbd"]

def emojiRuns : List String :=
  ["BjbgbfkEhbebLYrbmbIibwbDmgpcOdcmbGkbzledHrbIxckbjbCgebfjbcbcccbebcbbccbdbdcidfbbbfmlccbbcbbs",
   "bccsgbbbcdcfbcceclcfccbfcbbbcucfgbecbebcbcgbbcbbbbbgbdbgbkcpbcbebbbedbblcBwdjbobobOicRvdtcBz",
   "bebBVubmbXdbbbGMRqbHubGecmcobckCxBabcxbubcjvcGsBicEiccbdcDfcdbKdbCllgbyhccimbcecbecnccbicjbf",
   "dmdidcbbbebgbdbgDiBwCsficdekdbbcdbckItmebKxBvbkbHdEindjhBubhioejhj"]

def emojiComponentRuns : List String :=
  ["BjbgbfkMBjbIfbDFTrbDOIwBaTnfCEaeBSVUqDs"]

def emojiModifierRuns : List String :=
  ["HHIxf"]

def emojiModifierBaseRuns : List String :=
  ["OLhbIlbqeGSJvbCidcbcdEncclvtdbedbdhbbbybHtcebvbecGsddfDfbqdjblbWdbcbiigbjkcdCebCjcbcbbrdbnIv",
   "dBqj"]

def emojiPresentationRuns : List String :=
  ["NHqcHxedbcbUbcvcBymBrbtbnbicrcfcibfbvbhcbbebcbhbecBcbBjbbbedbbCjdybobBHbcBzbebGPLebHubHibckC",
   "xBabbybubcfbdvcGsBhmjbCsbwmBrefmrdbdCtbbbHfcClnebysbBacnbDiDhBwCsgbddcdeelchjItmebKxBvbkbHdE",
   "indjhBubhioejhj"]

def extendedPictographicRuns : List String :=
  ["GnbebLYrbmbIibwbDmgpcOdcmbDrbCsbzledHrbIxckbjbCgebgbmbEkkEoclbbbbgbdbgbkcpbcbebbbedbblfBtdjb",
   "obobOicRvdtcBzbebBVubmbXdbbbGMRmJwndBfbCigmcobcksCfBbpkbubcjbejQsfMgiKgBwEyEmmDhBrmeCeikgBoi",
   "BeDemBvbkbQzJwBNi"]

def extenderRuns : List String :=
  ["HbbUqcBHubQzbBHabBCybExbDNfbCebXnbPibCqbHKjbBrfDzcDpdBQBubCGsbBLabwbFhbEebvcBFZvbDBkcEMsbXsd",
   "BVjbBEOfcBTkcbbBQYacDBad"]

def graphemeBaseRuns : List String :=
  ["BgDrBhnbWwEiicgehbbbubIqhGkbBmcBycdBubbbcbcbjBbegrklbbBuvqbDxibgccbeBgcbbBeBdDllboBrjhdyebjb",
   "dbhpbzfbblfBfrBqCfCdbbbeiebdhkcBdbcbicccwbhbbdedbbcgcccbbncbdeyfbbgeccwbhbcbcbcedyebbhkcdbbm",
   "bbjbdbwbhbcbfdeibbcdbpcemhbicbicccwbhbcbfdbcbgcccpcbdeslbbgddbedcbbbcdcdddmfbbcddbddbvvgdbib",
   "dbxbqdbdetdcbccekhkblbdbxbkbfdcbcbcccbcrcbcekbdolbdbBpcbbcfdbdbcedbkeBaccbsdybjbbchjcghhkcdm",
   "BwbcliinBlcbbbfbybbbkbcjbcfbbjkceBgycBbbbbbbobBksbfbcfBxibgbnBlBtebgbccczcedqenbccgbpbBobbfb",
   "cOnbechbbbecBpbecBhbechbbbecpbCfbecCpfBddBagDicgcZtdDlhsdbjtcdjsonbdpCacbhibcljdkgkglfkgDlhf",
   "cBibbfCskBfeecdecbghbdBqcflBseBagldCfccdCebbjbbcignkgkgoDiBwhbbfbkdBbjldBgeccbdCebbcdbbdciBw",
   "icfpdCihBrcllbnbhebgbdcbfHkCmKscgcBmcgcibbbbbbbBfcCbbpbocgbtcdbjblfyhBxqccBbbndBhClFkeZnzlvC",
   "RscBgbNgdcfBtbbfbcCehcpxjhbhbhbhbhbhbhbhBhDqBiBabDlmIgBameBqgqbDieDxfBrbDqbDgmBvbBRIrdCdjNku",
   "BvebkBgcDccgiHvfcbbbfyqbdbebzcfekgCeiCqkmynbBmizlclBegBwbceccqblehbzbBpgcccldbibbckcBgbBzbbd",
   "ccfcbbbyrcilgcgcgjhbhbCieEnbcbedkgQNsmxeBxMNcOccEcBmhmffbbybfbbbcbcbEvqRdcCchbBgqqkwBjbtbeef",
   "bFfeGbcBfdgcgcgcddhbhnccmbBabtbcbpcoBiEtfdeBtdDkbndbBvBtFbBddBxqBbeBkjBefBmkBebBleoBqGcckgBk",
   "eBkeBoiCalmbpbhbcblbpbhbcCpLzjwkiygbBqbjCrgcbbBsbcdbcxbCuijBwtbcfBhdBbfbCmCeeucBvpebdbBdkjhj",
   "hCmBgBlgmjCcdBdcBbfBahemhDcCvCdBznBzhBqmkLiBfbBqdbccDaBoiwljwseeBmBcuxjbbCcpheBebccbmBxecccb",
   "eozhkjBkfbjsiBjbdlCajkecbqbulsbBcdcbbcgbcClhbbbebpblgBvbdnkicbicccwbhbcbfdbbbbecccdcbmhGaCei",
   "cdbbvbbbdBeBwbcgbbcbbcbceikGkBvbcgecbcBbBkBzicbbcelkgntBrbbbcgbbcgkCcBbfcebjxHdBvjbcbDwDfmic",
   "bcibcbybfbcebbebdjkCsicBqiebeBbbkBogceijbgcdBunbcjnCvhkJmjbBmobbgkBddBgzbhbcbCxhbcbBmvbjkggb",
   "cbBlecbbbbhkLytcejpbBkicbbbxDibpBynBJnDyEhbflHoDXkDvnBPgrgFYvWlMUbVxhBfbkeDdbkgBehbkBwhpkkbh",
   "bvftBAmDnDxCxfCelnCmemcoJCaiBVqBqjNFrebhbcbLfpbBddcboeiPgDKuEdfndjhkcbcbHCaEmCiJmkBncCibbdev",
   "chBeeCjvCodbEsumumDjjzFfDhbCtbccbcccebmbbbhbCnbecibhbBcbebfbbdhbNccLgcVqCdeByibobhBRwBfggKbC",
   "kFqBtkhckecMiBesBsekfbRwBcekBCohbebcbpbHpcjBwCqhbekecBEfCqCyCjHmebBbbcbbcbbkbebbbbgbebbbbbbd",
   "bcbbcbbbbbbbbbbcbbcebhbebebbbkbrfdbfbrCacKkBseDwmpcpbpbBlkGsCeBdnBsejhcogFyBLwerdndEpeDrgmeb",
   "pmeCeikgBoiBeccDaNcmocndjhBubhioejhjhFrbCdBlkBNqCLFcBgGDugIocINqoLBlEPjUwCFyHHzfGFg"]

def graphemeExtendRuns : List String :=
  ["BDoEiKphKdBtbbbcbcbbCulBwvqbDxhcgccbeBjbBeBbDnlCgjjbyebjbdbfBrdCiiBqybBgCdbbbeiebdhkcBdbCgbb",
   "bceibjbkcBabccCfbececcddbBecdblcCfbefbcebucwgbbCgbbcbeibhdkcBebChbbbmbjbBobdbCdbbdfdbehclcBd",
   "bCgbcbcbdbfchclcBccCfcbbceibjbkcBdbCubebcdbbibDdbchmiDubcjlhCvcBbbbbbbCdobfbcflbBkjbDyebgbcc",
   "czcedqenbccgbpbBBbdBKkdBdcBecBecCmcbhibcljbBtdbbEncBibEodecjbgdIlccbCgbbhbbbbcigkcbBwBfBxeBw",
   "hbbfbBojmcBgeccbdCebbcdbbdCgiccFwdbnbhebgbdcHqCmUebHnBhEOcdFlbDsBgVigEbcBSQeebkBgcDccKmbdbeb",
   "zcfbFvcBasnbBmizlBudBwbceccBnbCpgccccmbibBvbBzbbdccfcbbBqcibJebcbebBDZsbBCjqqqOccXhbIsbFtfCM",
   "gdbcfeBodebGjcWbeOxcDcdCslBxeEtbCcpBpbcckdBxecchbCjdBkfbiCkbmcCajkecbDrdcbbcgbcbGbbdivcCfcbb",
   "bbwbohdfHnicdbbxbDdbcgbbcbbcbcJbbcegcbcBbcDhicbbcEcbbbcgbbDxdcebfJzjbcJlbkcbbebFoeccebBgkBog",
   "ceibjgcdBunbcPqhbgbbDewchbcbcEsgdbbcbhbbCucdbbbNjclcCaffbbbHYrbgpURqfChhBOibCleDdbBDBkcGYzBu",
   "cxUwbbdefiichBeeFsdCYdCdeByibobwfbpCAihbrchbcbfDwbGehOlbCjeToeBMehEfhBTCAfDsEyJg"]

def hexDigitRuns : List String :=
  ["BwkhgBagDSLlkhgBag"]

def idsBinaryOperatorRuns : List String :=
  ["SEacci"]

def idsTrinaryOperatorRuns : List String :=
  ["SEcc"]

def idContinueRuns : List String :=
  ["BwkhBaebbBaBvbkbbbcbfxbBfbRqemofhbbbrEnbccebbgfbbbubDfbFjbfcGkbBmcbgBpiBtbbbcbcbbiBbeeBdlfCw",
   "eDybickbtcbqChcDxoCcebcbcBusBcelfybgjCwbEzckbtbicccwbhbbdecjccceibecbfcmkbbbcdbgeccwbhbcbcbc",
   "cbbfeccddbhebbhqldbjbdbwbhbcbfckbdbdcbpeckjhbdbicccwbhbcbfcjcccdhdecbfckbbqcbgddbedcbbbcdcdd",
   "dmefddbecbgbokqnbdbxbqcjbdbehcbdcbceckqebibdbxbkbfcjbdbehcgcbeckbdmnbdbBzbdbffehfckkgbdbsdyb",
   "jbbchdbegbbbigkccnCgfpbkBncbbbfbybbbxcfbbbhbkceBgbxcgklbbbbbekbBkeubsbBkjbCfCwgDacBmbbfbcBrb",
   "MvbechbbbecBpbecBhbechbbbecpbCfbecCpcdjjoqqDicgdXwcrbBafCxdlhwjwlumnbdbcmDgdbecckBhdblgDlhBr",
   "fCskBfbmemkBocflBseBaglBlBceClbBdclgknbiobqBxCzdkrjmEmmCeikdBxcjhBrcdqdbBnfUocgcBmcgcibbbbbb",
   "bBfcCbbhbbddbhdecgenfdbhCoctbBcbnbqnBznebdmrbebckbbcggbbbbbbqceffebrBpDZbIvgjmBmbbfbcCehbpyj",
   "hbhbhbhbhbhbhbhbBgTxdzpbfcfeDichbDmbefBrbDqrBgBwqTsJToCmBGUfCpBucKjdBcuBwekbElBljcDzcCmfcbbb",
   "fyCcebtCamCskkgydbbBxcBkmBddCnolgBfbCdjockgxdCvydcqcfkgcgcgjhbhbBrbogEtbcckgQNsmxeBxMNcOccEc",
   "BmhmffmbnbfbbbcbcbEeBhNzsCmcCcBomeqqqdcydBgfbFftkhBaebbBalDldgcgcgcdBjmbBabtbcbpcoBiEtCrCbFg",
   "bFaBddBxpbBfBgnBefBrfBecBkeibfBqGcckgBkeBkeBoiCamlbpbhbcblbpbhbcCpLzjwkiygbBqbjCrgcbbBsbcdbc",
   "xkxjBfCntbckwkBaCsCegcCmebcfibdbBdcdebBgBddBdBjibBezCckwktnsEgCvCdBznBznBoikMoBqbcdcCxBgkbiB",
   "hBfwBqvBbxjCtBfqjCihbnzhkgCbbkeeiBkcbjCreebnbbBjsbBlgeCkhbbbebpbkhChfkgebicccwbhbcbfbkcccdcb",
   "gbfhchdfFjCxfkeeBeCsbbikGkCccjxgBiCndblkBmCfhkCcBbcpekghHdChDxCwvicbcibcbBebccjmkCsicBucibcB",
   "bClibiCwdbsCvKdjbBtbjpkyBecwboCvhbcbBsdbbcbjikggbcbBlbcbghkLyxjrbBpdfnkDibDbBJmDyEhrHoDXkDtp",
   "BPgqwFYgWlMUbVxhBfbkgDbbkgBecflCdjemkjvftBAmCmEyCxeCfhrCmcbclcoJCaiBVqBqjNFrebhbcbLfpbBddcbo",
   "eiPgDKuEdfndjhkdcGYzBucxUwfdgiichBeeFsdRbDhbCtbccbcccebmbbbhbCnbecibhbBcbebfbbdhbNcczbzbBfbz",
   "bBfbzbBfbzbBfbzbicByTsCdeByibobwfbpBQmBfggIfhbrchbcbffCkBhbEiBtdockebMjBfrCgScBqBCohbebcbpbH",
   "plhBpCyekBTuebBbbcbbcbbkbebbbbgbebbbbbbdbcbbcbbbbbbbbbbcbbcebhbebebbbkbrfdbfbrFAakBNqCLFcBgG",
   "DugIocINqoLBlEPjUwCFyHHzfGFgBONHgJg"]

def idStartRuns : List String :=
  ["CnBagBaBvbkbebfxbBfbRqemofhbbbEzfbccebbgbbdbbbubDfbFjiGkbBmcbgBpCtBbeeBtBrBjcbDvbbpchckdcbqb",
   "bBeBdDllbyBhjcebfwebjbdbxzhlfybgrBqCgCcdbsbhkpqeicccwbhbbdedbqbncbdockbigeccwbhbcbcbcBfebbtd",
   "qjbdbwbhbcbfdbsbpcxblicccwbhbcbfdbBecbdpbrbbgddbedcbbbcdcdddmwbCaibdbxbqdbBadcbccBebeibdbxbk",
   "bfdbBfcbcpcrjbdbBpcbqbfdidygfsdybjbbchCgBwbcmhCgcbbbfbybbbkbcjbcfbbveBgbClibBkBbfElBrubqgeed",
   "bdchdenmbrBmbbfbcBrbMvbechbbbecBpbecBhbechbbbecpbCfbecCpBlqqDicgdXwcrbBafCxdlhsntosonbdpCaBj",
   "bebCpDlhBpbbfCskBfBxBecflBseBaCcxjCbDebDpBvriCcBenckBsBaBkBpdkBkcjhBrcdBpebgbcdbfHkCmKscgcBm",
   "cgcibbbbbbbBfcCbbhbbddbhdecgenfdbhEmbnbqnDxbebckbbcggbbbbbbqceffebrBpDZbIvgedcmBmbbfbcCehbqx",
   "jhbhbhbhbhbhbhbhVedzjhfcfeDiefbDmbefBrbDqrBgBwqTsJToCmBGUfCpBucKjdqkcuBvqBfcDcBnjcDzcCmfcbbb",
   "fyqbdbebxBdCaoByCkgdbbclBckxzBdhBvBcbqfbkkfbBpxdbiuxdbdBybbdccfcbbbydclhdmgcgcgjhbhbBrbogElB",
   "dQNsmxeBxMNcOccEcBmhmffbbkbnbfbbbcbcbEeBhNzsCmcCcBomEmfbFfBkBagBalDldgcgcgcdBjmbBabtbcbpcoBi",
   "EtCrCbKhBddBxBvBgnBefBmkBecBkeibfBqGcsBkeBkeBoiCamlbpbhbcblbpbhbcCpLzjwkiygbBqbjCrgcbbBsbcdb",
   "cxkxjBfCntbckwkBaCsCegcCmbpebdbBdBqBddBdBjibBcBbCckwktnsEgCvCdBznBznBkNkBqgcDaBdkbiwBqsBuvBb",
   "xmCbCfccbnBtBgzBaBkBdbcbiBjdbmBwoevbbbBjsbztcClhbbbebpbkhBvBmicccwbhbcbfdbsbmfGcCbseudBeBwuc",
   "bbHcBvBpeBkBwubChBrnbCtBbBlhHdBsEmCmBficbcibcbypbbbDqicBnqbbbBcbkBohbvblButbsCvKdjbBlrbBxBeE",
   "ihbcbBmvbzgbcbBgobMptpbbnbBiEubDbBJmDyEhrHoDXkDtpBPgrgFYvWlMUbVxhBfrDbrBesBwqeBfvftBAmCmEyCx",
   "fbConCmcbbBcJCaiBVqBqjNFrebhbcbLfpbBddcboeiPgDKuEdfndjhkIWkDhbCtbccbcccebmbbbhbCnbecibhbBcbe",
   "bfbbdhbNcczbzbBfbzbBfbzbBfbzbBfbzbiCSyBfggKbCkFqBtkhqbMjBesBsSqBcBDchbebcbpbHpChCqhbBUiebBbb",
   "cbbcbbkbebbbbgbebbbbbbdbcbbcbbbbbbbbbbcbbcebhbebebbbkbrfdbfbrGOaCLFcBgGDugIocINqoLBlEPjUwCFy",
   "HHzfGFg"]

def ideographicRuns : List String :=
  ["SEwczjodBLdJToCmBFBkBHSiOccEcBSIkbBbJCaiBVqBqjNUlPgBDEiCLFcBgGDugIocINqoLBlEPjUwCFyHHzfGFg"]

def joinControlRuns : List String :=
  ["MDoc"]

def logicalOrderExceptionRuns : List String :=
  ["FKifEtfEDsdcbCCXmccbbc"]

def lowercaseRuns : List String :=
  ["DtBaBvbkbebBkybibbbbbbbbbbbbbbbbbbbbbbbbbbbbbbbbbbbbbbbbbbbbbbbbbbbbbbbcbbbbbbbbbbbbbbbcbbbb",
   "bbbbbbbbbbbbbbbbbbbbbbbbbbbbbbbbbbbbbbbbbbcbbbbdcbbbcbdcebcbddcbcbbbbbcbbcbbcbdbbbcccdgbcbcb",
   "bbbbbbbbbbbbbbbcbbbbbbbbbbbbbbbbbccbbbdbbbbbbbbbbbbbbbbbbbbbbbbbbbbbbbbbbbbbbbbbbbbbbbbbbbbb",
   "bbbbbhcbccbbebbbbbbbbCrbBkhcBefDsbBrbbbdbcesbBbBjbcddbbbbbbbbbbbbbbbbbbbbbbbfbbcbccBzBwbbbbb",
   "bbbbbbbbbbbbbbbbbbbbbbbbbbbbbjbbbbbbbbbbbbbbbbbbbbbbbbbbbbbbbbbbbbbbbbbbbbbbbbbbbbbcbbbbbbbb",
   "bbbbcbbbbbbbbbbbbbbbbbbbbbbbbbbbbbbbbbbbbbbbbbbbbbbbbbbbbbbbbbbbbbbbbbbbbbbbbbbbbbbbbbbbbbbb",
   "bbbbbbbbbBwBpEHbBrbeBDggDFujEpHkCnbbbbbbbbbbbbbbbbbbbbbbbbbbbbbbbbbbbbbbbbbbbbbbbbbbbbbbbbbb",
   "bbbbbbbbbbbbbbbbbbbbbbbbbbbbbbbbbbbbbbbbbbbbbbbbbbbbbbbbbbbbbbbbbbbbbbbbbbbbbbbbbbbbbbbbbbjb",
   "bbbbbbbbbbbbbbbbbbbbbbbbbbbbbbbbbbbbbbbbbbbbbbbbbbbbbbbbbbbbbbbbbbbbbbbbbbbbbbbbbbbbbbbbbbbb",
   "bbbbjigkiiiigkiiiiociiiiiifbcgbddbciecciikdbcErbnbqnEfbdcdbBbbebebccieebBhqebBGlBaCTqBwbbdcb",
   "bbbbbebbcbidbbbbbbbbbbbbbbbbbbbbbbbbbbbbbbbbbbbbbbbbbbbbbbbbbbbbbbbbbbbbbbbbbbbbbbbbbbbbbbbb",
   "bbbbbbbbbbbbbbbbbbchbbbebmBmbbfbBTWdbbbbbbbbbbbbbbbbbbbbbbbbbbbbbbbbbbbbbbbbbbbbbtbbbbbbbbbb",
   "bbbbbbbbbbbbbbbbdFdbbbbbbbbbbbbdbbbbbbbbbbbbbbbbbbbbbbbbbbbbbbbbbbbbbbbbbbbbbbbbbbbbbbbbbbbb",
   "bkbbbbcbbbbbbbbbebbbcbbdbbbbbbbbbbbbbbbbbbbbfbfbbbbbbbbbbbbbbbebbbgbbbbbbbbbydbbbdBFpBrbogDc",
   "BEAihmfBOzBaBVhBoFgBkFzlbpbhbcRjbcdbBqbjBXlBzEMfBgBGJwBgBMMkBaBahbsBaBaBaebbbhblBaBaBaBaBaBa",
   "BaBaBaBaBaBaBaBaBaBaBaBcBczbgBazbgBazbgBazbgBazbgbbCSykbuggKbCkDHsBi"]

def mathRuns : List String :=
  ["BrbqdBfbBdbbbBtbebBlbBfbBCadcbBaccdUhdJWnbBbdlbdbnboevflfCnnebdcefsbebckbbcggbdcccbdbgdobbCq",
   "ybgbceceBgbbgcoKiieucDmbBeBbbbyblhRdcmkegecccdfobbbcglifcCfbbbBdejdMyCmJwTsBwvcgDASqbBFrgbbG",
   "gbqdBdbbbBdbbbFbbgeDCIdDhbCtbccbcccebmbbbhbCnbecibhbBcbebfbbdhbNccLgcByIIqebBbbcbbcbbkbebbbb",
   "gbebbbbbbdbcbbcbbbbbbbbbbcbbcebhbebebbbkbrfdbfbrCac"]

def noncharacterCodePointRuns : List String :=
  ["DSDcBgUgcDSYocDSYocDSYocDSYocDSYocDSYocDSYocDSYocDSYocDSYocDSYocDSYocDSYocDSYocDSYocDSYoc"]

def patternSyntaxRuns : List String :=
  ["BhpkhBaebbBaeBihbbbcbbbcebebdbxbBfbLUeyipctbkLtBBsGeYgBeBRoTsEyOvdezpbCZQzcKbc"]

def patternWhiteSpaceRuns : List String :=
  ["jfsbDwbLYmcyc"]

def prependedConcatenationMarkRuns : List String :=
  ["CHcgIhbBxbOucDcbDVXybpb"]

def quotationMarkRuns : List String :=
  ["BibebFbbpbLWuizcFIdbRpendDABpeHhbebDmc"]

def radicalRuns : List String :=
  ["RPwBabDlmIg"]

def regionalIndicatorRuns : List String :=
  ["HGOkBa"]

def sentenceTerminalRuns : List String :=
  ["BhbmbqbCAbbFrdGybBrdJmbCjbbbdcLhcCPwcBEkbecBDtbHqcHwbfbMccNqeGscccBdcHgcCncBKucjdFGubnbwcQnb",
   "BSHwbKkcItbdbOscDicDrbFwcFrdFocJpbBFFibdcGnbmbqbCnbEDwcBXdfBseHhcEneExdEzcgbqcDkcbcEebQbcOjc",
   "fpEbcJpdTxbbbJrcDjcQecBAqcCwcBCMbcFdbCnclbBGtbBDOgbLImb"]

def softDottedRuns : List String :=
  ["EbcHobKvbBebCabubMibDubbbJMnbBzbnbdbFcbGbbQfbIgcEGgbGELhcBycBycBycBycBycBycBycBycBycBycBycBy",
   "cDFybLtcBab"]

def terminalPunctuationRuns : List String :=
  ["BhbkbbblcdbBFybibTtbCfbCubobbdGybBrlbbJbcCcpBfbKbcBWucGqbegLzcBEjiBDtbEudCtcGbddbBneccMccNqe",
   "GscbdBdcHgfCkcBKucjdFGubnbebkbbcdcQmcBSHvcKjdItfOscDicDrbFvdFrdExbqcJpbBFFgdbeGnbkbbblcdbCnb",
   "cbBPqbBwbBSobHrbLycFwgCqgDleBKqfBseHhhEieExdEzcgbqcDkfEebQbdmcNuedpEbcJpdTxbbbJrcDjcecPydBtb",
   "YvcCwcBYxfBAMzcFdbCndkbBGscBDOgbLIle"]

def unifiedIdeographRuns : List String :=
  ["TSaJToCmBFBkBICscbbbckbbbbccdDVEcCLFcBgGDugIocINqoLBlHQdHHzfGFg"]

def uppercaseRuns : List String :=
  ["CnBaDxxbhBhbbbbbbbbbbbbbbbbbbbbbbbbbbbbbbbbbbbbbbbbbbbbbbbbbbbbbbbcbbbbbbbbbbbbbbbcbbbbbbbbb",
   "bbbbbbbbbbbbbbbbbbbbbbbbbbbbbbbbbbbbbcbbbbdcbbbcbdcebcbddcbcbbbbbcbbcbbcbdbbbcdbhbcbcbcbbbbb",
   "bbbbbbbbbbcbbbbbbbbbbbbbbbbbcbcbbdbbbbbbbbbbbbbbbbbbbbbbbbbbbbbbbbbbbbbbbbbbbbbbbbbbbbbbbbbb",
   "hcbccbbebbbbbbbbLdbbbdbibgbbdbbbcbrbjBjbcddbbbbbbbbbbbbbbbbbbbbbbbfbcbbccBzBwbbbbbbbbbbbbbbb",
   "bbbbbbbbbbbbbbbbbbjbbbbbbbbbbbbbbbbbbbbbbbbbbbbbbbbbbbbbbbbbbbbbbbbbbbbbbcbbbbbbbbbbbbcbbbbb",
   "bbbbbbbbbbbbbbbbbbbbbbbbbbbbbbbbbbbbbbbbbbbbbbbbbbbbbbbbbbbbbbbbbbbbbbbbbbbbbbbbbbbbbbbbbbcB",
   "mEHdBmbbfbBBuDiDGsBrcdMibbbbbbbbbbbbbbbbbbbbbbbbbbbbbbbbbbbbbbbbbbbbbbbbbbbbbbbbbbbbbbbbbbbb",
   "bbbbbbbbbbbbbbbbbbbbbbbbbbbbbbbbbbbbbbbbbbbbbbbbbbbbbbbbbbbbbbbbbbbbbbbbbbbbbbbbbjbbbbbbbbbb",
   "bbbbbbbbbbbbbbbbbbbbbbbbbbbbbbbbbbbbbbbbbbbbbbbbbbbbbbbbbbbbbbbbbbbbbbbbbbbbbbbbbbbbbbbjiigk",
   "iiiiglbbbbbbbiiCuemememfleKcbebddcdcbdfgbbbbbbecekcfbBaqtbBFmBaCSuBwBwbbdcbbbbbbebbcbidbbbbb",
   "bbbbbbbbbbbbbbbbbbbbbbbbbbbbbbbbbbbbbbbbbbbbbbbbbbbbbbbbbbbbbbbbbbbbbbbbbbbbbbbbbbbbbbbbbbbb",
   "bibbbebBTYjbbbbbbbbbbbbbbbbbbbbbbbbbbbbbbbbbbbbbbbbbbbbbtbbbbbbbbbbbbbbbbbbbbbbbbbbbFfbbbbbb",
   "bbbbbbbdbbbbbbbbbbbbbbbbbbbbbbbbbbbbbbbbbbbbbbbbbbbbbbbbbbbbbbbbbbbbbkbbbbcbbbbbbbbebbbcbbbd",
   "bbbbbbbbbbbbbbbbbbbbfbfbbbbbbbbbbbbbbbebbgbfbbbBcbBHAhBaBUzBoFgBkGalbpbhbcCQcBzENlBgBGJwBgBM",
   "MqBaBaBaBaBaBabbccbcccebiBaBaBacbecibhBbcbebfbbdhBbBaBaBaBaBaBaBaBaBaBaBaBezBhzBhzBhzBhzBhbG",
   "NlBiDBiBagBagBa"]

def variationSelectorRuns : List String :=
  ["JCtdbbDJCaqBWNKyJg"]

def whiteSpaceRuns : List String :=
  ["jfsbDwbBabIHjbDPnlBdcfbBvbFXwb"]

def xidContinueRuns : List String :=
  ["BwkhBaebbBaBvbkbbbcbfxbBfbRqemofhbbbrEnbcddbbgfbbbubDfbFjbfcGkbBmcbgBpiBtbbbcbcbbiBbeeBdlfCw",
   "eDybickbtcbqChcDxoCcebcbcBusBcelfybgjCwbEzckbtbicccwbhbbdecjccceibecbfcmkbbbcdbgeccwbhbcbcbc",
   "cbbfeccddbhebbhqldbjbdbwbhbcbfckbdbdcbpeckjhbdbicccwbhbcbfcjcccdhdecbfckbbqcbgddbedcbbbcdcdd",
   "dmefddbecbgbokqnbdbxbqcjbdbehcbdcbceckqebibdbxbkbfcjbdbehcgcbeckbdmnbdbBzbdbffehfckkgbdbsdyb",
   "jbbchdbegbbbigkccnCgfpbkBncbbbfbybbbxcfbbbhbkceBgbxcgklbbbbbekbBkeubsbBkjbCfCwgDacBmbbfbcBrb",
   "MvbechbbbecBpbecBhbechbbbecpbCfbecCpcdjjoqqDicgdXwcrbBafCxdlhwjwlumnbdbcmDgdbecckBhdblgDlhBr",
   "fCskBfbmemkBocflBseBaglBlBceClbBdclgknbiobqBxCzdkrjmEmmCeikdBxcjhBrcdqdbBnfUocgcBmcgcibbbbbb",
   "bBfcCbbhbbddbhdecgenfdbhCoctbBcbnbqnBznebdmrbebckbbcggbbbbbbqceffebrBpDZbIvgjmBmbbfbcCehbpyj",
   "hbhbhbhbhbhbhbhbBgTxdzpbfcfeDicccdbDmbefBrbDqrBgBwqTsJToCmBGUfCpBucKjdBcuBwekbElBljcDzcCmfcb",
   "bbfyCcebtCamCskkgydbbBxcBkmBddCnolgBfbCdjockgxdCvydcqcfkgcgcgjhbhbBrbogEtbcckgQNsmxeBxMNcOcc",
   "EcBmhmffmbnbfbbbcbcbEeBhFjgIksCmcCcBokgqqqdcydBhbbbdbbbbbbbbEwtkhBaebbBalDldgcgcgcdBjmbBabtb",
   "cbpcoBiEtCrCbFgbFaBddBxpbBfBgnBefBrfBecBkeibfBqGcckgBkeBkeBoiCamlbpbhbcblbpbhbcCpLzjwkiygbBq",
   "bjCrgcbbBsbcdbcxkxjBfCntbckwkBaCsCegcCmebcfibdbBdcdebBgBddBdBjibBezCckwktnsEgCvCdBznBznBoikM",
   "oBqbcdcCxBgkbiBhBfwBqvBbxjCtBfqjCihbnzhkgCbbkeeiBkcbjCreebnbbBjsbBlgeCkhbbbebpbkhChfkgebiccc",
   "wbhbcbfbkcccdcbgbfhchdfFjCxfkeeBeCsbbikGkCccjxgBiCndblkBmCfhkCcBbcpekghHdChDxCwvicbcibcbBebc",
   "cjmkCsicBucibcBbClibiCwdbsCvKdjbBtbjpkyBecwboCvhbcbBsdbbcbjikggbcbBlbcbghkLyxjrbBpdfnkDibDbB",
   "JmDyEhrHoDXkDtpBPgqwFYgWlMUbVxhBfbkgDbbkgBecflCdjemkjvftBAmCmEyCxeCfhrCmcbclcoJCaiBVqBqjNFre",
   "bhbcbLfpbBddcboeiPgDKuEdfndjhkdcGYzBucxUwfdgiichBeeFsdRbDhbCtbccbcccebmbbbhbCnbecibhbBcbebfb",
   "bdhbNcczbzbBfbzbBfbzbBfbzbBfbzbicByTsCdeByibobwfbpBQmBfggIfhbrchbcbffCkBhbEiBtdockebMjBfrCgS",
   "cBqBCohbebcbpbHplhBpCyekBTuebBbbcbbcbbkbebbbbgbebbbbbbdbcbbcbbbbbbbbbbcbbcebhbebebbbkbrfdbfb",
   "rFAakBNqCLFcBgGDugIocINqoLBlEPjUwCFyHHzfGFgBONHgJg"]

def xidStartRuns : List String :=
  ["CnBagBaBvbkbebfxbBfbRqemofhbbbEzfbcddbbgbbdbbbubDfbFjiGkbBmcbgBpCtBbeeBtBrBjcbDvbbpchckdcbqb",
   "bBeBdDllbyBhjcebfwebjbdbxzhlfybgrBqCgCcdbsbhkpqeicccwbhbbdedbqbncbdockbigeccwbhbcbcbcBfebbtd",
   "qjbdbwbhbcbfdbsbpcxblicccwbhbcbfdbBecbdpbrbbgddbedcbbbcdcdddmwbCaibdbxbqdbBadcbccBebeibdbxbk",
   "bfdbBfcbcpcrjbdbBpcbqbfdidygfsdybjbbchCgBwbbnhCgcbbbfbybbbkbbkbcfbbveBgbClibBkBbfElBrubqgeed",
   "bdchdenmbrBmbbfbcBrbMvbechbbbecBpbecBhbechbbbecpbCfbecCpBlqqDicgdXwcrbBafCxdlhsntosonbdpCaBj",
   "bebCpDlhBpbbfCskBfBxBecflBseBaCcxjCbDebDpBvriCcBenckBsBaBkBpdkBkcjhBrcdBpebgbcdbfHkCmKscgcBm",
   "cgcibbbbbbbBfcCbbhbbddbhdecgenfdbhEmbnbqnDxbebckbbcggbbbbbbqceffebrBpDZbIvgedcmBmbbfbcCehbqx",
   "jhbhbhbhbhbhbhbhVedzjhfcfeDigdbDmbefBrbDqrBgBwqTsJToCmBGUfCpBucKjdqkcuBvqBfcDcBnjcDzcCmfcbbb",
   "fyqbdbebxBdCaoByCkgdbbclBckxzBdhBvBcbqfbkkfbBpxdbiuxdbdBybbdccfcbbbydclhdmgcgcgjhbhbBrbogElB",
   "dQNsmxeBxMNcOccEcBmhmffbbkbnbfbbbcbcbEeBhFjgIksCmcCcBokEpbbbdbbbbbbbbEwBkBagBalCecBfdgcgcgcd",
   "BjmbBabtbcbpcoBiEtCrCbKhBddBxBvBgnBefBmkBecBkeibfBqGcsBkeBkeBoiCamlbpbhbcblbpbhbcCpLzjwkiygb",
   "BqbjCrgcbbBsbcdbcxkxjBfCntbckwkBaCsCegcCmbpebdbBdBqBddBdBjibBcBbCckwktnsEgCvCdBznBznBkNkBqgc",
   "DaBdkbiwBqsBuvBbxmCbCfccbnBtBgzBaBkBdbcbiBjdbmBwoevbbbBjsbztcClhbbbebpbkhBvBmicccwbhbcbfdbsb",
   "mfGcCbseudBeBwucbbHcBvBpeBkBwubChBrnbCtBbBlhHdBsEmCmBficbcibcbypbbbDqicBnqbbbBcbkBohbvblButb",
   "sCvKdjbBlrbBxBeEihbcbBmvbzgbcbBgobMptpbbnbBiEubDbBJmDyEhrHoDXkDtpBPgrgFYvWlMUbVxhBfrDbrBesBw",
   "qeBfvftBAmCmEyCxfbConCmcbbBcJCaiBVqBqjNFrebhbcbLfpbBddcboeiPgDKuEdfndjhkIWkDhbCtbccbcccebmbb",
   "bhbCnbecibhbBcbebfbbdhbNcczbzbBfbzbBfbzbBfbzbBfbzbiCSyBfggKbCkFqBtkhqbMjBesBsSqBcBDchbebcbpb",
   "HpChCqhbBUiebBbbcbbcbbkbebbbbgbebbbbbbdbcbbcbbbbbbbbbbcbbcebhbebebbbkbrfdbfbrGOaCLFcBgGDugIo",
   "cINqoLBlEPjUwCFyHHzfGFg"]

/-- Every binary property: its names and its packed runs. -/
def binaryTable : List (List String × List String) :=
  [(["asciihexdigit", "ahex"], asciiHexDigitRuns),
   (["alphabetic", "alpha"], alphabeticRuns),
   (["bidicontrol", "bidic"], bidiControlRuns),
   (["bidimirrored", "bidim"], bidiMirroredRuns),
   (["caseignorable", "ci"], caseIgnorableRuns),
   (["cased"], casedRuns),
   (["changeswhencasefolded", "cwcf"], changesWhenCasefoldedRuns),
   (["changeswhencasemapped", "cwcm"], changesWhenCasemappedRuns),
   (["changeswhenlowercased", "cwl"], changesWhenLowercasedRuns),
   (["changeswhentitlecased", "cwt"], changesWhenTitlecasedRuns),
   (["changeswhenuppercased", "cwu"], changesWhenUppercasedRuns),
   (["dash"], dashRuns),
   (["defaultignorablecodepoint", "di"], defaultIgnorableCodePointRuns),
   (["deprecated", "dep"], deprecatedRuns),
   (["diacritic", "dia"], diacriticRuns),
   (["emoji"], emojiRuns),
   (["emojicomponent", "ecomp"], emojiComponentRuns),
   (["emojimodifier", "emod"], emojiModifierRuns),
   (["emojimodifierbase", "ebase"], emojiModifierBaseRuns),
   (["emojipresentation", "epres"], emojiPresentationRuns),
   (["extendedpictographic", "extpict"], extendedPictographicRuns),
   (["extender", "ext"], extenderRuns),
   (["graphemebase", "grbase"], graphemeBaseRuns),
   (["graphemeextend", "grext"], graphemeExtendRuns),
   (["hexdigit", "hex"], hexDigitRuns),
   (["idsbinaryoperator", "idsb"], idsBinaryOperatorRuns),
   (["idstrinaryoperator", "idst"], idsTrinaryOperatorRuns),
   (["idcontinue", "idc"], idContinueRuns),
   (["idstart", "ids"], idStartRuns),
   (["ideographic", "ideo"], ideographicRuns),
   (["joincontrol", "joinc"], joinControlRuns),
   (["logicalorderexception", "loe"], logicalOrderExceptionRuns),
   (["lowercase", "lower"], lowercaseRuns),
   (["math"], mathRuns),
   (["noncharactercodepoint", "nchar"], noncharacterCodePointRuns),
   (["patternsyntax", "patsyn"], patternSyntaxRuns),
   (["patternwhitespace", "patws"], patternWhiteSpaceRuns),
   (["prependedconcatenationmark", "pcm"], prependedConcatenationMarkRuns),
   (["quotationmark", "qmark"], quotationMarkRuns),
   (["radical"], radicalRuns),
   (["regionalindicator", "ri"], regionalIndicatorRuns),
   (["sentenceterminal", "sterm"], sentenceTerminalRuns),
   (["softdotted", "sd"], softDottedRuns),
   (["terminalpunctuation", "term"], terminalPunctuationRuns),
   (["unifiedideograph", "uideo"], unifiedIdeographRuns),
   (["uppercase", "upper"], uppercaseRuns),
   (["variationselector", "vs"], variationSelectorRuns),
   (["whitespace", "wspace", "space"], whiteSpaceRuns),
   (["xidcontinue", "xidc"], xidContinueRuns),
   (["xidstart", "xids"], xidStartRuns)]

def binary? (name : String) : Option CodeSet :=
  (binaryTable.find? fun row => row.1.contains name).map fun row => CodeSet.ofPacked row.2

end LineEditor.Unicode
