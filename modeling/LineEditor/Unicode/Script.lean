import LineEditor.Unicode.Packed

/-!
# Scripts

The script of a code point, and its script extensions: the scripts it is used with. Both are
partitions of the code space; a run of the second carries a list of script numbers.
-/

namespace LineEditor.Unicode

/-- Runs of the script, numbered in the order of `scriptNames`. -/
def scriptPartition : List String :=
  ["CnaBabgaBabBvabbpabbfaxbbaBfbbaRhbBnafbfaccuaEideebadecfeebabeefbebabebadebfbebfuebfCleogqeF",
   "dhcdGnhbfBmicfByicfdibfCdjifBbjefgjlffkbagkbaokbadkbaBgkbakkldBakbdEekbaBikolbfCilcfdlBwkBym",
   "ofChncfdnBuocfpobfBcpcfbpbfllffBfkbfckgfCwkbaBdkDdqedpqcaBaqerbfircfcrcfwrbfhrbfbrdfercfjrcf",
   "crcferifbrefcrbffrcfzrcfdsbfgsefcscfwsbfhsbfcsbfcsbfcscfbsbffsefcscfdsdfbshfesbfbshfrskfdtbf",
   "jtbfdtbfwtbfhtbfctbfftcfktbfdtbfdtcfbtpfetcfmthfhtbfdubfiucfcucfwubfhubfcubffucfjucfcucfduhf",
   "duefcubffucfsukfcvbfgvdfdvbfevdfcvbfbvbfcvdfcvdfdvdfmveffvdfdvbfevcfbvgfbvofvvffnwbfdwbfxwbf",
   "qwcfjwbfdwbfewhfcwbfdwcfbwcfewcfkwhfjwnxbfdxbfxxbfkxbffxcfjxbfdxbfexhfcxgfcxbfexcfkxbfdxmfny",
   "bfdybfBzybfdybfgyefqycfBaybfdzbfszdfyzbfjzbfbzcfhzdfbzefgzbfbzbfizgfkzcfdzmfCgBaefbaBcBaBlfc",
   "BbbfbBbbffBbbfyBbbfbBbbfxBbcffBbbfbBbbfhBbbfkBbcfeBbBgfCuBcbfBkBcefBnBcbfBkBcbfpBcbfhBceacBc",
   "BlfGeBdBmBebfbBeffbBecfBrBebaeBeJwBfCvBgbfeBgcfhBgbfbBgbfeBgcfBpBgbfeBgcfBhBgbfeBgcfhBgbfbBg",
   "bfeBgcfpBgbfCfBgbfeBgcfCpBgcfBgBgdfBaBggfDiBhcfgBhcfYqBiBdBjdfCxBkdalBkhfwBljfbBlvBmcajfuBnm",
   "fnBobfdBobfcBomfDqBpcfkBpgfkBpgfcBqcabBqbauBqgfDlBqhfBrBqffCsBikfBfBrbfmBrefmBrefbBrdfmBrBeB",
   "scffBslfBsBtefBaBtgflBtdfcBtBgBpBcBucfcBuClBvbfBdBvcflBvgfkBvgfoBvcfBfdBxfCzBwdfBvBwbfCmBxCa",
   "ByifeByCeBzdfpBzdfdBzBwCajhhfBrBecfdBeiBxifddbandbahdeabdgabddacdbaffBmbfebhBxbfeebfenbbhCsb",
   "beCmdJwbwecfgecfBmecfgecfiebfbebfbebfbebfBfecfCbebfpebfoecfgebftecfdebfjebfmacdDjabflabbcfla",
   "bbpabfnbdfBhapfBhdpfBmabedacbgabbBbabbraBpbdaefZnazflavfBJsaJwCbYeacfBgabfEbaDsCcBgbEmgffhgB",
   "mBebfbBeffbBecfCeCdhfcCdofbCdxBgjfhBgbfhBgbfhBgbfhBgbfhBgbfhBgbfhBgbfhBgbfBghDqaBifBaCebfDlC",
   "emfIgCeBafmaeffabCebabCezajCeedcBfiaeCeeabfDiCfcfcdcadCfbaDmCgcadCgffBrcbfDqBfbfqaBgcBkamfqC",
   "gBfBfbfCmaBfBfDdaBvCgbaDkCgGmaJToCeCmaBFBkCeBSvChdfCdChjfBwCiLoCjufDshDkCkifBiaDybdaCmbffcbb",
   "fbbbffbyfobBtCldfkagfCeCmifCsCnifmCngfBgqBuCobabCoBkCplfbCpBdBfdfDaCqbfbakCqefcCqBfBdbfCdCrj",
   "foCrcfkCrcfeCrBgBdCpCsyffCsxCtkfgBgcfgBgcfgBgjfhBgbfhBgbfBrbbajbbeebcaefDcBhBuCtcfkCtgfQNsBf",
   "mfxBfefBxBfMNcfOcCecfEcCeBmfhbmffiffBajbffjbfbjbfcjbfcjbfkjElkqfNzkcaDckcfCckhfbkBgfqkqdkagf",
   "odchBjabftabfeaeffkbfFfkcfbabfBgaBabgaBablakCgbaBtCgcaBfBfdfgBfcfgBfcfgBfcfdBfdfhabfhakffacf",
   "mCubfBaCubftCubfcCubfpCucfoCuBifEtCuffdaefBtadfjaDbebfnadfbeBvfBtabdFafBdCvdfBxCwpfbdBbaefBk",
   "CxjfdCxBbCyffBrCzffBeDabfbDaBkDbefoDbBqfDcDcBwDdBeDecfkDegfBkDfefBkDfefBoDgifCaDhlfbDhlDibfp",
   "DibfhDibfcDibflDibfpDibfhDibfcDiCpfLzDjjfwDjkfiDjyfgbbfBqbbfjbCrfgDkcfbDkbfBsDkbfcDkdfbDkcfb",
   "DkwDlbfjDlBgDmBfDnifjDnBwftDobfcDofffDoBcDpdfbDpBaDqffbDqCmfBgDryDsefuDscfBuDseDtbfcDtffiDtb",
   "fdDtbfBdDtcfdDtefkDthfjDthfBgDuBgDvBgfBnDwefmDwjfCcDxdfhDxwDycfiDytDzffiDzsEahfeEamfhEaDcfCv",
   "EbCdfBzEcnfBzEchfgEcBoEdifkEdLifBfkbfBqEebfdEecfcEeCxfdkBoEfifBqEgwfBaEhBmfBcEiufxEjjfDaEkef",
   "BkEkjfbEkCpElkfbElcfzEmhfkEmgfCbEnbfsEnifBnEojfDsEpbfuzlfsEqbfBvEqCkfhErbfbErbfeErbfpErbflEr",
   "gfChEsffkEsgfeEtbfiEtcfcEtcfwEtbfhEtbfcEtbffEtbfbdjEtcfcEtcfdEtcfbEtgfbEtffhEtcfhEtdffEtFjfD",
   "oEubffEuBefCuEvifkEvGkfCcEwcfBmEwBifCrExlfkExgfnBqtfCgEygfkEyCcfBbEzcfpEzefxEzHdfCiFaDwfDfFb",
   "mfbFbhFccfbFccfiFcbfcFcbfBeFcbfcFccfmFcjfkFcCsfiFdcfBuFdcflFdBbfCuFeifDfFfnfqBiCfFghfkqJmfjF",
   "hbfBtFhbfoFhkfBdFhdfBgFicfwFibfoFiCvfhFjbfcFjbfBsFjdfbFjbfcFjbfjFjifkFjgfgFkbfcFkbfBlFkbfcFk",
   "bfgFkhfkFkLyfzFlhfrFmbfBpFmdfBcFmDifbCipfByvnfbvBJmFnDyfEhFnbffFnlfHoFnDXkfDvFonfBQsFpFYgfWl",
   "FqMUbfVxCkhfBfFrbfkFrefcFrDbFsbfkFsgfBeFtcfgFtkfCsFukfkFubfhFubfvFufftFuBAmfDnFvDxfCxFwefCfF",
   "whfrFwCmfbFxbFycCebFzlfcCeofJCaFxifBDoFxScFzBqfjFxNFrfeCgbfhCgbfcCgbfbCgLbCfdCgpfbCfBdfdCfcf",
   "bCgofeCgifPgFyDKufEdGaffnGadfjGahfkGacfeGaeaGYufBudcfxdjfEmaCifJmakfBnacfCkaddraidcahdBeaedC",
   "javfCseEsfuamfuamfDjajfzaFffDhabfCtabfcacfbacfcacfeabfmabfbabfhabfCnabfeacfiabfhabfBcabfeabf",
   "fabfbadfhabfNcacfLgacfByaZcGbpffGbbfpGbBQmfBfbgfgbIffhCcbfrCccfhCcbfcCcbffCcffCkhBhfbhEifBtG",
   "cdfoGccfkGcefcGcMifBfGdrfCgGeffbGeRwfBqGfBCofhBgbfeBgbfcBgbfpBgbfHpGgcfqGgBpfCyGhefkGhefcGhB",
   "EffCqaCyfCjaHmfekbfBbkbfckbfbkcfbkbfkkbfekbfbkbfbkgfbkefbkbfbkbfbkbfdkbfckbfbkcfbkbfbkbfbkbf",
   "bkbfbkbfckbfbkcfekbfhkbfekbfekbfbkbfkkbfrkffdkbffkbfrkCafckKkfBsaefDwamfpacfpabfpabfBlakfGsa",
   "CefBaabCfcanfBsaefjahfcaofgaFyfBLwaefradfnadfEpaefDragfmaefbapfmaefCeaifkagfBoaifBeacfcaDafN",
   "camfoacfnadfjahfBuabfhaifoaefjahfjahfFrabfCdaBlfkaBNqfCLFcCeBgfGDuCegfIoCecfINqCeofLBlCeEPjf",
   "UwCeCFyfHHzCeffGFgCeBOMXlfbaBefDsaEyfJgdLECuf"]

/-- The scripts by number: the names each may be called by. -/
def scriptNames : List (List String) :=
  [["zyyy", "common"],
   ["latn", "latin"],
   ["bopo", "bopomofo"],
   ["zinh", "inherited", "qaai"],
   ["grek", "greek"],
   ["zzzz", "unknown"],
   ["copt", "coptic", "qaac"],
   ["cyrl", "cyrillic"],
   ["armn", "armenian"],
   ["hebr", "hebrew"],
   ["arab", "arabic"],
   ["syrc", "syriac"],
   ["thaa", "thaana"],
   ["nkoo", "nko"],
   ["samr", "samaritan"],
   ["mand", "mandaic"],
   ["deva", "devanagari"],
   ["beng", "bengali"],
   ["guru", "gurmukhi"],
   ["gujr", "gujarati"],
   ["orya", "oriya"],
   ["taml", "tamil"],
   ["telu", "telugu"],
   ["knda", "kannada"],
   ["mlym", "malayalam"],
   ["sinh", "sinhala"],
   ["thai"],
   ["laoo", "lao"],
   ["tibt", "tibetan"],
   ["mymr", "myanmar"],
   ["geor", "georgian"],
   ["hang", "hangul"],
   ["ethi", "ethiopic"],
   ["cher", "cherokee"],
   ["cans", "canadianaboriginal"],
   ["ogam", "ogham"],
   ["runr", "runic"],
   ["tglg", "tagalog"],
   ["hano", "hanunoo"],
   ["buhd", "buhid"],
   ["tagb", "tagbanwa"],
   ["khmr", "khmer"],
   ["mong", "mongolian"],
   ["limb", "limbu"],
   ["tale", "taile"],
   ["talu", "newtailue"],
   ["bugi", "buginese"],
   ["lana", "taitham"],
   ["bali", "balinese"],
   ["sund", "sundanese"],
   ["batk", "batak"],
   ["lepc", "lepcha"],
   ["olck", "olchiki"],
   ["brai", "braille"],
   ["glag", "glagolitic"],
   ["tfng", "tifinagh"],
   ["hani", "han"],
   ["hira", "hiragana"],
   ["kana", "katakana"],
   ["yiii", "yi"],
   ["lisu"],
   ["vaii", "vai"],
   ["bamu", "bamum"],
   ["sylo", "sylotinagri"],
   ["phag", "phagspa"],
   ["saur", "saurashtra"],
   ["kali", "kayahli"],
   ["rjng", "rejang"],
   ["java", "javanese"],
   ["cham"],
   ["tavt", "taiviet"],
   ["mtei", "meeteimayek"],
   ["linb", "linearb"],
   ["lyci", "lycian"],
   ["cari", "carian"],
   ["ital", "olditalic"],
   ["goth", "gothic"],
   ["perm", "oldpermic"],
   ["ugar", "ugaritic"],
   ["xpeo", "oldpersian"],
   ["dsrt", "deseret"],
   ["shaw", "shavian"],
   ["osma", "osmanya"],
   ["osge", "osage"],
   ["elba", "elbasan"],
   ["aghb", "caucasianalbanian"],
   ["vith", "vithkuqi"],
   ["lina", "lineara"],
   ["cprt", "cypriot"],
   ["armi", "imperialaramaic"],
   ["palm", "palmyrene"],
   ["nbat", "nabataean"],
   ["hatr", "hatran"],
   ["phnx", "phoenician"],
   ["lydi", "lydian"],
   ["mero", "meroitichieroglyphs"],
   ["merc", "meroiticcursive"],
   ["khar", "kharoshthi"],
   ["sarb", "oldsoutharabian"],
   ["narb", "oldnortharabian"],
   ["mani", "manichaean"],
   ["avst", "avestan"],
   ["prti", "inscriptionalparthian"],
   ["phli", "inscriptionalpahlavi"],
   ["phlp", "psalterpahlavi"],
   ["orkh", "oldturkic"],
   ["hung", "oldhungarian"],
   ["rohg", "hanifirohingya"],
   ["yezi", "yezidi"],
   ["sogo", "oldsogdian"],
   ["sogd", "sogdian"],
   ["ougr", "olduyghur"],
   ["chrs", "chorasmian"],
   ["elym", "elymaic"],
   ["brah", "brahmi"],
   ["kthi", "kaithi"],
   ["sora", "sorasompeng"],
   ["cakm", "chakma"],
   ["mahj", "mahajani"],
   ["shrd", "sharada"],
   ["khoj", "khojki"],
   ["mult", "multani"],
   ["sind", "khudawadi"],
   ["gran", "grantha"],
   ["newa"],
   ["tirh", "tirhuta"],
   ["sidd", "siddham"],
   ["modi"],
   ["takr", "takri"],
   ["ahom"],
   ["dogr", "dogra"],
   ["wara", "warangciti"],
   ["diak", "divesakuru"],
   ["nand", "nandinagari"],
   ["zanb", "zanabazarsquare"],
   ["soyo", "soyombo"],
   ["pauc", "paucinhau"],
   ["bhks", "bhaiksuki"],
   ["marc", "marchen"],
   ["gonm", "masaramgondi"],
   ["gong", "gunjalagondi"],
   ["maka", "makasar"],
   ["kawi"],
   ["xsux", "cuneiform"],
   ["cpmn", "cyprominoan"],
   ["egyp", "egyptianhieroglyphs"],
   ["hluw", "anatolianhieroglyphs"],
   ["mroo", "mro"],
   ["tnsa", "tangsa"],
   ["bass", "bassavah"],
   ["hmng", "pahawhhmong"],
   ["medf", "medefaidrin"],
   ["plrd", "miao"],
   ["tang", "tangut"],
   ["nshu", "nushu"],
   ["kits", "khitansmallscript"],
   ["dupl", "duployan"],
   ["sgnw", "signwriting"],
   ["hmnp", "nyiakengpuachuehmong"],
   ["toto"],
   ["wcho", "wancho"],
   ["nagm", "nagmundari"],
   ["mend", "mendekikakui"],
   ["adlm", "adlam"]]

/-- Runs of the script extensions, numbered in the order of `extensionGroups`. -/
def extensionPartition : List String :=
  ["CnaBabgaBabBvabbpabbfaxbbaBfbbaRhbBnafbfaccuaCodbecdbeBddnbeebadecfeebabeefbebabebadebfbebfu",
   "ebfCleogqeFbhbibjckbjGmhbfBmlcfBylcfdlbfCdmifBbmefgmlffnbagnboonbobpcnbqBgnbrknlsknktgnbsDvn",
   "buinbaBinovbfCivcfdvBwnBywofChxcfdxBuycfpybfBczcfbzbflvffBfnbfcngfCwnbaBdnDdBabBbbBccdpBabBd",
   "bBekBfqBaeBgbfiBgcfcBgcfwBgbfhBgbfbBgdfeBgcfjBgcfcBgcfeBgifbBgefcBgbffBgcfkBhpBgcfdBibfgBief",
   "cBicfwBibfhBibfcBibfcBibfcBicfbBibffBiefcBicfdBidfbBihfeBibfbBihfkBjhBikfdBkbfjBkbfdBkbfwBkb",
   "fhBkbfcBkbffBkcfkBkbfdBkbfdBkcfbBkpfeBkcfkBlcBkhfhBkbfdBmbfiBmcfcBmcfwBmbfhBmbfcBmbffBmcfjBm",
   "cfcBmcfdBmhfdBmefcBmbffBmcfsBmkfcBnbfgBndfdBnbfeBndfcBnbfbBnbfcBndfcBndfdBndfmBneffBndfdBnbf",
   "eBncfbBngfbBnofoBohBnffnBpbfdBpbfxBpbfqBpcfjBpbfdBpbfeBphfcBpbfdBpcfbBpcfeBpcfkBphfjBpnBqbfd",
   "BqbfxBqbfkBqbffBqcfjBqbfdBqbfeBqhfcBqgfcBqbfeBqcfkBrbfdBqmfnBsbfdBsbfBzBsbfdBsbfgBsefqBscfBa",
   "BsbfdBtbfsBtdfyBtbfjBtbfbBtcfhBtdfbBtefgBtbfbBtbfiBtgfkBtcfdBtmfCgBuefbaBcBuBlfcBvbfbBvbffBv",
   "bfyBvbfbBvbfxBvcffBvbfbBvbfhBvbfkBvcfeBvBgfCuBwbfBkBwefBnBwbfBkBwbfpBwbfhBweacBwBlfCmBxkByDi",
   "BxBmBzbfbBzffbBzcfBrBzbCaeBzJwCbCvCcbfeCccfhCcbfbCcbfeCccfBpCcbfeCccfBhCcbfeCccfhCcbfbCcbfeC",
   "ccfpCcbfCfCcbfeCccfCpCccfBgCcdfBaCcgfDiCdcfgCdcfYqCeBdCfdfCxCgdalCghfwChjfbChvCicCjjfuCkmfnC",
   "lbfdClbfcClmfDqCmcfkCmgfkCmgfcCncCobCnbCouCngfDlCnhfBrCnffCsCekfBfCpbfmCpefmCpefbCpdfmCpBeCq",
   "cffCqlfBsCrefBaCrgflCrdfcCrBgCmBcCscfcCsClCtbfBdCtcflCtgfkCtgfoCtcfBfdBxfCzCudfBvCubfCmCvCaC",
   "wifeCwCeCxdfpCxdfdCxBwCyjhhfBrBzcfdBziCvifbCzbBabCzbDabBacDbbDcbDbbDcbDdbBacDccBabDcbDbhBabD",
   "ebDbcBabDbeBabDfbDabDgcDbbBgcDabDhffBmbfebhBxbfeebfenbbhCsbdeCcdbDibdbvfdJwbwecfgecfBmecfgec",
   "fiebfbebfbebfbebfBfecfCbebfpebfoecfgebftecfdebfjebfmacdBhabDjCbabflabbcflabbpabfnbdfBhapfBgd",
   "bDkpfBmabedacbgabbBbabbraBpbdaefZnazflavfBJsaJwDlYeacfBgabfEbaDsDmBgbEmgffhgBmBzbfbBzffbBzcf",
   "CeDnhfcDnofbDnxCcjfhCcbfhCcbfhCcbfhCcbfhCcbfhCcbfhCcbfhCcbfBghCpabjBaaBifBaDobfDlDomfIgDoBaf",
   "maefbacDpbDqbadDokDpbabDqiDpeDqbajDoeDrcCbbDqfDsbabDqeDocDtcDobfDiDucfeDsdDubDsDmDvbDpbDsdDv",
   "ffBrcbfDqCbbfqDoBgcBkDomfqDvBfCbbfBoDoyaBfCbbaBxDopamDoeaBvDvbDoDkDvzDokafDoDsaBfDobaJToDoCm",
   "aBFBkDoBSvDwdfCdDwjfBwDxLoDyufBvhbjBwhDkDzifiEaBaaDybdaCmbffcbbfbbbffbyfobBtEbdfdEcdEdeEegfC",
   "eEfifCsEgifmEggfrBabDbbBabEhmBaBuEibEjbEiBkEklfbEkBdCbdfDaElbfbEmkElefcElBfBxbfCdEnjfoEncfkE",
   "ncfeEnBgBxCpEoyffEoxEpkfgCccfgCccfgCcjfhCcbfhCcbfBrbbajbbeebcaefDcCdBuEpcfkEpgfQNsCbmfxCbefB",
   "xCbMNcfOcDocfEcDoBmfhbmfflffBambffmbfbmbfcmbfcmbfkmElnqfNzncEqDcncfCcnhfbnBgfcnbErknbErcnqdk",
   "agfodchvacDqmabftabfeaeffnbfFfncfbabfBgaBabgaBabgafDpkDvbDsBtDvcDsBfCbdfgCbcfgCbcfgCbcfdCbdf",
   "habfhakffacfmEsbfBaEsbftEsbfcEsbfpEscfoEsBifEtEsffcEtbEuefBtEvdfjEuDbebfnadfbeBvfBtabdFafBdE",
   "wdfBxExpfBcEyefBkEzjfdEzBbFaffBrFbffBeFcbfbFcBkFdefoFdBqfDcFeBwFfBeFgcfkFggfBkFhefBkFhefBoFi",
   "ifCaFjlfbFjlFkbfpFkbfhFkbfcFkbflFkbfpFkbfhFkbfcFkCpfLzFljfwFlkfiFlyfgbbfBqbbfjbCrfgFmcfbFmbf",
   "BsFmbfcFmdfbFmcfbFmwFnbfjFnBgFoBfFpifjFpBwftFqbfcFqfffFqBcFrdfbFrBaFsffbFsCmfBgFtyFuefuFucfB",
   "uFueFvbfcFvffiFvbfdFvbfBdFvcfdFvefkFvhfjFvhfBgFwBgFxBgfBnFyefhFybFzeFyjfCcGadfhGawGbcfiGbtGc",
   "ffiGcsGdhfeGdmfhGdDcfCvGeCdfBzGfnfBzGfhfgGfBoGgifkGgLifBfnbfBqGhbfdGhcfcGhCxfdnBoGiifBqGjwfB",
   "aGkBmfBcGlufxGmjfDaGnefBkGnjfbGnCpGokfbGocfzGphfkGpgfCbGqbfsGqifBnGrjfDsGsbfuBtlfsGtbfBvGtCk",
   "fhGubfbGubfeGubfpGubflGugfChGvffkGvgfbGwbBobGwbBobfiGwcfcGwcfwGwbfhGwbfcGwbffGwbfcBoiGwcfcGw",
   "cfdGwcfbGwgfbGwffhGwcfhGwdffGwFjfDoGxbffGxBefCuGyifkGyGkfCcGzcfBmGzBifCrHalfkHagfnCntfCgHbgf",
   "kHbCcfBbHccfpHcefxHcHdfCiHdDwfDfHemfbHehHfcfbHfcfiHfbfcHfbfBeHfbfcHfcfmHfjfkHfCsfiDhcfBuDhcf",
   "lDhBbfCuHgifDfHhnfqCeCfHihfkBaJmfjHjbfBtHjbfoHjkfBdHjdfBgHkcfwHkbfoHkCvfhHlbfcHlbfBsHldfbHlb",
   "fcHlbfjHlifkHlgfgHmbfcHmbfBlHmbfcHmbfgHmhfkHmLyfzHnhfrHobfBpHodfBcHoDifbDxpfqBncBobBnbBoBeBn",
   "nfbBnBJmHpDyfEhHpbffHplfHoHpDXkfDvHqnfBQsHrFYgfWlHsMUbfVxDzhfBfHtbfkHtefcHtDbHubfkHugfBeHvcf",
   "gHvkfCsHwkfkHwbfhHwbfvHwfftHwBAmfDnHxDxfCxHyefCfHyhfrHyCmfbHzbIacDobIblfcDoofJCaHzifBDoHzScI",
   "bBqfjHzNFrfeDvbfhDvbfcDvbfbDvLbDudDvpfbDuBdfdDucfbDvofeDvifPgIaDKufEdIcffnIcdfjIchfkIccfiIcG",
   "YufBudcfxdjfEmaCifJmakfBnacfCkaddraidcahdBeaedCjavfCseEsfuamfuamfDjajfsDohaFffDhabfCtabfcacf",
   "bacfcacfeabfmabfbabfhabfCnabfeacfiabfhabfBcabfeabffabfbadfhabfNcacfLgacfByaZcIdpffIdbfpIdBQm",
   "fBfbgfgbIffhDmbfrDmcfhDmbfcDmbffDmffCkhBhfbhEifBtIedfoIecfkIeefcIeMifBfIfrfCgIgffbIgRwfBqIhB",
   "CofhCcbfeCcbfcCcbfpCcbfHpIicfqIiBpfCyIjefkIjefcIjBEffCqaCyfCjaHmfenbfBbnbfcnbfbncfbnbfknbfen",
   "bfbnbfbngfbnefbnbfbnbfbnbfdnbfcnbfbncfbnbfbnbfbnbfbnbfbnbfcnbfbncfenbfhnbfenbfenbfbnbfknbfrn",
   "ffdnbffnbfrnCafcnKkfBsaefDwamfpacfpabfpabfBlakfGsaCefBaabDucanfBsaefjahfcDoofgaFyfBLwaefradf",
   "nadfEpaefDragfmaefbapfmaefCeaifkagfBoaifBeacfcaDafNcamfoacfnadfjahfBuabfhaifoaefjahfjahfFrab",
   "fCdaBlfkaBNqfCLFcDoBgfGDuDogfIoDocfINqDoofLBlDoEPjfUwDoCFyfHHzDoffGFgDoBOMXlfbaBefDsaEyfJgdL",
   "ECuf"]

/-- The groups of scripts that share code points. -/
def extensionGroups : List (List Nat) :=
  [[0], [1], [2], [3], [4], [5], [6], [7], [7, 77], [7, 54], [1, 7], [8], [9], [10],
   [10, 11, 12, 13, 107, 108], [10, 11, 12], [10, 11, 12, 13, 107, 108, 163],
   [10, 11, 15, 100, 104, 107, 110, 111, 163], [10, 11], [10, 12, 108], [10, 107], [11], [12],
   [13], [14], [15], [16], [1, 16, 17, 18, 19, 20, 21, 22, 23, 24, 119, 123, 125],
   [1, 16, 17, 18, 19, 20, 21, 22, 23, 24, 123, 125],
   [16, 17, 18, 19, 20, 21, 22, 23, 24, 25, 63, 118, 122, 123, 125, 128, 130, 133, 139, 140],
   [16, 17, 18, 19, 20, 21, 22, 23, 24, 25, 43, 63, 118, 122, 123, 125, 128, 130, 133, 139, 140],
   [16, 115, 118, 130], [17], [17, 63, 117], [18], [18, 121], [19], [19, 120], [20], [21],
   [21, 123], [22], [23], [23, 133], [24], [25], [26], [27], [28], [29], [29, 44, 117], [30],
   [1, 30], [31], [32], [33], [34], [35], [36], [37], [38], [37, 38, 39, 40], [39], [40],
   [41], [42], [42, 64], [43], [44], [45], [46], [47], [48], [49], [50], [51], [52],
   [16, 17, 23, 123], [16, 123], [16, 17], [16, 119], [16, 20, 21, 22, 23, 24], [16, 133],
   [16, 17, 20, 22, 23, 123, 125, 133], [16, 23, 123], [133], [7, 11], [1, 42], [1, 16, 123],
   [53], [54], [55], [56], [2, 31, 56, 57, 58, 59], [2, 31, 56, 57, 58], [2, 56], [57, 58],
   [56, 57, 58], [57], [58], [59], [60], [61], [62], [1, 56], [63],
   [16, 18, 19, 23, 24, 115, 118, 120, 122, 125, 127, 128, 130, 133],
   [16, 18, 19, 23, 115, 118, 120, 122, 125, 127, 128, 130, 133],
   [16, 18, 19, 115, 118, 120, 122, 125, 127, 128, 130], [64], [65], [16, 21], [66],
   [1, 29, 66], [67], [68], [46, 68], [69], [70], [71], [10, 13], [10, 12], [72],
   [72, 88, 144], [72, 88], [72, 87, 88], [73], [74], [6, 10], [75], [76], [77], [78], [79],
   [80], [81], [82], [83], [84], [85], [86], [87], [88], [89], [90], [91], [92], [93], [94],
   [95], [96], [97], [98], [99], [100], [100, 111], [101], [102], [103], [104], [105], [106],
   [107], [108], [109], [110], [111], [112], [113], [114], [115], [116], [117], [118], [119],
   [120], [121], [122], [123], [124], [125], [126], [127], [128], [129], [130], [131], [132],
   [134], [135], [136], [137], [138], [139], [140], [141], [142], [143], [144], [145], [146],
   [147], [148], [149], [150], [151], [152], [153], [154], [155], [156], [157], [158], [159],
   [160], [161], [162], [163]]

def scriptNumber? (name : String) : Option Nat :=
  scriptNames.findIdx? (·.contains name)

def script? (name : String) : Option CodeSet :=
  (scriptNumber? name).map fun n =>
    Partition.select (Partition.ofPacked scriptPartition) (· == n)

def scriptExtension? (name : String) : Option CodeSet :=
  (scriptNumber? name).map fun n =>
    Partition.select (Partition.ofPacked extensionPartition) fun g =>
      (extensionGroups[g]?.getD []).contains n

end LineEditor.Unicode
